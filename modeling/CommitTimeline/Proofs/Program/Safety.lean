/-
# Safe programs

What surrounds a program is a set of states with a relation `step`: from which
state an exchange (a request with its answer) leads to which. `Program.Safe` says
what holds of a program whatever the answers: in every state in which it waits for
an answer, and in the state in which it is done. Reports are not waited for. The
same programs are followed in two surroundings: alone, with what they asked and
were answered as the state, and in storage.

A safe program stays so when the surroundings are related to others
(`Program.Safe.simulate`). For calls there is one rule for each way to build a
call; a rule says apart what holds when the call fails (`fails`) and when it gives
a result with a view (`gives`).
-/

import CommitTimeline.Call

namespace CommitTimeline

/-- A request with its answer. -/
structure Exchange where
  request : Request
  answer : request.Answer

namespace Request

/-- Nothing is waited for. -/
def isReport : Request → Bool
  | .report _ => true
  | _ => false

end Request

/-- A program followed alone: the state is what it has asked and been answered, the
latest first. -/
def Alone (l : List Exchange) (e : Exchange) (l' : List Exchange) : Prop :=
  l' = e :: l

namespace Program

variable {α β σ τ : Type} {step : σ → Exchange → σ → Prop} {waits waits' : σ → Prop}
  {post post' : α → σ → Prop}

/-- The program once its first reports are made. -/
def quiet : Program α → Program α
  | ask (.report _) next => (next ()).quiet
  | p => p

/-- A program that has made its first reports waits for something else. -/
theorem isReport_of_quiet {p : Program α} {r : Request} {next : r.Answer → Program α}
    (h : p.quiet = .ask r next) : r.isReport = false := by
  induction p with
  | done a => cases h
  | ask r' next' ih =>
    cases r' with
    | report e => exact ih () h
    | storage r' =>
      cases h
      rfl
    | ingest t b =>
      cases h
      rfl
    | merge t p =>
      cases h
      rfl

/-- Whatever the answers that `step` allows, `waits` holds where the program waits,
and `post` where it is done. -/
inductive Safe (step : σ → Exchange → σ → Prop) (waits : σ → Prop) (post : α → σ → Prop) :
    Program α → σ → Prop where
  | done {a : α} {s : σ} (h : post a s) : Safe step waits post (.done a) s
  | report {e : Event} {next : Unit → Program α} {s : σ}
      (h : Safe step waits post (next ()) s) : Safe step waits post (.ask (.report e) next) s
  | ask {r : Request} {next : r.Answer → Program α} {s : σ} (hr : r.isReport = false)
      (hw : waits s) (h : ∀ x s', step s ⟨r, x⟩ s' → Safe step waits post (next x) s') :
      Safe step waits post (.ask r next) s

/-- A safe program is safe for everything that follows from what was said of it. -/
theorem Safe.mono {p : Program α} {s : σ} (h : p.Safe step waits post s)
    (hw : ∀ s, waits s → waits' s) (hp : ∀ a s, post a s → post' a s) :
    p.Safe step waits' post' s := by
  induction h with
  | done h => exact .done (hp _ _ h)
  | report _ ih => exact .report ih
  | ask hr h _ ih => exact .ask hr (hw _ h) ih

/-- **One after the other:** what comes second starts where the first is done. -/
theorem Safe.bind {p : Program α} {f : α → Program β} {post' : β → σ → Prop} {s : σ}
    (h : p.Safe step waits post s) (hf : ∀ a s, post a s → (f a).Safe step waits post' s) :
    (p.bind f).Safe step waits post' s := by
  induction h with
  | done h => exact hf _ _ h
  | report _ ih => exact .report ih
  | ask hr h _ ih => exact .ask hr h ih

/-- A span changes reports only, and these are not waited for. -/
theorem Safe.within {p : Program α} {s : σ} (span : Span) (h : p.Safe step waits post s) :
    (p.within span).Safe step waits post s := by
  induction h with
  | done h => exact .done h
  | report _ ih => exact .report ih
  | @ask r _ _ hr h _ ih =>
    cases r with
    | report e => cases hr
    | storage r => exact .ask hr h ih
    | ingest t b => exact .ask hr h ih
    | merge t p => exact .ask hr h ih

/-- A safe program is as safe once its first reports are made. -/
theorem Safe.quiet {p : Program α} {s : σ} (h : p.Safe step waits post s) :
    p.quiet.Safe step waits post s := by
  induction h with
  | done h => exact .done h
  | report _ ih => exact ih
  | @ask r _ _ hr hw h _ =>
    cases r with
    | report e => cases hr
    | storage r => exact .ask hr hw h
    | ingest t b => exact .ask hr hw h
    | merge t p => exact .ask hr hw h

/-- Where a program has made its first reports, it waits or is done. -/
theorem Safe.holds_of_quiet {p : Program α} {s : σ} (h : p.Safe step waits post s)
    (hp : ∀ a s, post a s → waits s) : waits s := by
  induction h with
  | done h => exact hp _ _ h
  | report _ ih => exact ih
  | ask _ hw _ _ => exact hw

/-- A safe program that waits for an answer goes on safely. -/
theorem Safe.answered {r : Request} {next : r.Answer → Program α} {s : σ}
    (h : (Program.ask r next).Safe step waits post s) (hr : r.isReport = false) :
    waits s ∧ ∀ x s', step s ⟨r, x⟩ s' → (next x).Safe step waits post s' := by
  cases h with
  | report h => cases hr
  | ask _ hw h => exact ⟨hw, h⟩

/-- **Other surroundings:** if every step of theirs is one that was accounted for,
the program is as safe in them. -/
theorem Safe.simulate {p : Program α} {s : σ} {t : τ} {step' : τ → Exchange → τ → Prop}
    (h : p.Safe step waits post s) (R : σ → τ → Prop) (hR : R s t)
    (hstep : ∀ {s t t' e}, R s t → step' t e t' → ∃ s', step s e s' ∧ R s' t') :
    p.Safe step' (fun t => ∃ s, R s t ∧ waits s) (fun a t => ∃ s, R s t ∧ post a s) t := by
  induction h generalizing t with
  | done h => exact .done ⟨_, hR, h⟩
  | report _ ih => exact .report (ih hR)
  | ask hr hw _ ih =>
    refine .ask hr ⟨_, hR, hw⟩ fun x t' ht => ?_
    obtain ⟨s', hs, hR'⟩ := hstep hR ht
    exact ih x s' hs hR'

end Program

namespace Call

variable {α β σ τ : Type} {step : σ → Exchange → σ → Prop} {waits waits' : σ → Prop}
  {fails fails' : Error → σ → Prop} {gives gives' : α → Timeline → σ → Prop}
  {v : Timeline} {s : σ}

/-- What holds where a call is done: it fails, or it gives a result and leaves a view. -/
def Ends (fails : Error → σ → Prop) (gives : α → Timeline → σ → Prop) :
    Except Error α × Timeline → σ → Prop
  | (.ok a, v), s => gives a v s
  | (.error e, _), s => fails e s

/-- What holds of a call from a view: where it waits, where it fails, and where it
gives a result and leaves a view. -/
def Safe (step : σ → Exchange → σ → Prop) (waits : σ → Prop) (fails : Error → σ → Prop)
    (gives : α → Timeline → σ → Prop) (c : Call α) (view : Timeline) (s : σ) : Prop :=
  (c.program view).Safe step waits (Ends fails gives) s

/-- A safe call is safe for everything that follows from what was said of it. -/
theorem Safe.mono {c : Call α} (h : c.Safe step waits fails gives v s)
    (hw : ∀ s, waits s → waits' s) (hf : ∀ e s, fails e s → fails' e s)
    (hg : ∀ a v s, gives a v s → gives' a v s) : c.Safe step waits' fails' gives' v s :=
  Program.Safe.mono h hw fun
    | (.ok a, v), s, h => hg a v s h
    | (.error e, _), s, h => hf e s h

/-- A safe call is safe for everything that follows from what it gives. -/
theorem Safe.imp {c : Call α} (h : c.Safe step waits fails gives v s)
    (hg : ∀ a v s, gives a v s → gives' a v s) : c.Safe step waits fails gives' v s :=
  h.mono (fun _ h => h) (fun _ _ h => h) hg

/-- **One call after the other:** the second starts from the result and the view of
the first. -/
theorem Safe.bind {c : Call α} {f : α → Call β} {g : α → Timeline → σ → Prop}
    {gives : β → Timeline → σ → Prop} (h : c.Safe step waits fails g v s)
    (hf : ∀ a v s, g a v s → (f a).Safe step waits fails gives v s) :
    (c >>= f).Safe step waits fails gives v s := by
  refine Program.Safe.bind h ?_
  rintro ⟨a | e, w⟩ s h
  · exact .done h
  · exact hf _ w s h

/-- It is enough where the first call fails that what is said of both follows. -/
theorem Safe.bind_imp {c : Call α} {f : α → Call β} {g : α → Timeline → σ → Prop}
    {gives : β → Timeline → σ → Prop} (h : c.Safe step waits fails g v s)
    (hfails : ∀ e s, fails e s → fails' e s)
    (hf : ∀ a v s, g a v s → (f a).Safe step waits fails' gives v s) :
    (c >>= f).Safe step waits fails' gives v s :=
  (h.mono (fun _ h => h) hfails fun _ _ _ h => h).bind hf

/-- **Other surroundings:** a call is as safe where every step is one that was accounted for. -/
theorem Safe.simulate {c : Call α} {t : τ} {step' : τ → Exchange → τ → Prop}
    (h : c.Safe step waits fails gives v s) (R : σ → τ → Prop) (hR : R s t)
    (hstep : ∀ {s t t' e}, R s t → step' t e t' → ∃ s', step s e s' ∧ R s' t') :
    c.Safe step' (fun t => ∃ s, R s t ∧ waits s) (fun e t => ∃ s, R s t ∧ fails e s)
      (fun a v t => ∃ s, R s t ∧ gives a v s) v t := by
  refine Program.Safe.mono (Program.Safe.simulate h R hR hstep) (fun _ h => h) ?_
  rintro ⟨e | a, w⟩ t h
  · exact h
  · exact h

/-- A call followed alone, after others. -/
theorem Safe.after {c : Call α} {waits : List Exchange → Prop}
    {fails : Error → List Exchange → Prop} {gives : α → Timeline → List Exchange → Prop}
    (h : c.Safe Alone waits fails gives v []) (l : List Exchange) :
    c.Safe Alone (fun l' => ∃ own, l' = own ++ l ∧ waits own)
      (fun e l' => ∃ own, l' = own ++ l ∧ fails e own)
      (fun a w l' => ∃ own, l' = own ++ l ∧ gives a w own) v l := by
  refine h.simulate (fun own l' => l' = own ++ l) rfl ?_
  rintro own _ _ e rfl rfl
  exact ⟨e :: own, rfl, rfl⟩

/-- A call that gives a result at once. -/
theorem safe_pure {a : α} (h : gives a v s) :
    (pure a : Call α).Safe step waits fails gives v s :=
  .done h

/-- A call that fails at once. -/
theorem safe_throw {e : Error} (h : fails e s) :
    (throw e : Call α).Safe step waits fails gives v s :=
  .done h

/-- A call that goes on from its view. -/
theorem safe_view {f : Timeline → Call α} (h : (f v).Safe step waits fails gives v s) :
    (Call.view >>= f).Safe step waits fails gives v s :=
  h

/-- A call that replaces its view. -/
theorem safe_set {w : Timeline} {gives : Unit → Timeline → σ → Prop} (h : gives () w s) :
    (set w : Call Unit).Safe step waits fails gives v s :=
  .done h

/-- A call that changes its view and goes on. -/
theorem safe_modify {g : Timeline → Timeline} {f : Unit → Call α}
    (h : (f ()).Safe step waits fails gives (g v) s) :
    (modify g >>= f).Safe step waits fails gives v s :=
  h

/-- A notice is not waited for. -/
theorem safe_log {n : Notice} {f : Unit → Call α} (h : (f ()).Safe step waits fails gives v s) :
    (Call.log n >>= f).Safe step waits fails gives v s :=
  .report h

/-- A metric is not waited for. -/
theorem safe_count {m : Metric} {f : Unit → Call α}
    (h : (f ()).Safe step waits fails gives v s) :
    (Call.count m >>= f).Safe step waits fails gives v s :=
  .report h

/-- A call is as safe in a span. -/
theorem safe_within {c : Call α} (span : Span) (h : c.Safe step waits fails gives v s) :
    (Call.within span c).Safe step waits fails gives v s :=
  Program.Safe.within span h

/-- A call that waits for an ingestion goes on with every answer. -/
theorem safe_ingest {t : Timestamp} {b : Batch} {f : Except Error CommitMetadata → Call α}
    (hw : waits s)
    (h : ∀ x s', step s ⟨.ingest t b, x⟩ s' → (f x).Safe step waits fails gives v s') :
    (Call.ingest t b >>= f).Safe step waits fails gives v s :=
  .ask rfl hw h

/-- A call that waits for a merge goes on with every answer. -/
theorem safe_merge {t : Timestamp} {p : Plan} {f : Except Error Unit → Call α} (hw : waits s)
    (h : ∀ x s', step s ⟨.merge t p, x⟩ s' → (f x).Safe step waits fails gives v s') :
    (Call.merge t p >>= f).Safe step waits fails gives v s :=
  .ask rfl hw h

/-- What is done in storage leaves the view, and its errors are storage errors. -/
theorem program_storage (p : Program (Except StorageError α)) (v : Timeline) :
    (Call.storage p).program v = p.bind fun x => .done (x.mapError .storage, v) := by
  induction p with
  | done x => cases x <;> rfl
  | ask r next ih => exact congrArg (Program.ask r) (funext ih)

/-- What is done in storage is as safe as its program. -/
theorem safe_storage {p : Program (Except StorageError α)}
    (h : p.Safe step waits (fun x s => match x with
      | .ok a => gives a v s
      | .error e => fails (.storage e) s) s) :
    (Call.storage p).Safe step waits fails gives v s := by
  unfold Safe
  rw [program_storage]
  refine h.bind ?_
  rintro (e | a) s h
  · exact .done h
  · exact .done h

/-- What a call asks of storage, once, if the path allows it. -/
theorem safe_checked {path : String} {r : Storage.Request} {gives : r.Result → Timeline → σ → Prop}
    (hw : waits s) (hfault : ∀ e, fails (.storage e) s)
    (hok : ∀ x s', step s ⟨.storage r, .ok x⟩ s' → gives x v s')
    (herr : ∀ e s', step s ⟨.storage r, .error e⟩ s' → fails (.storage e) s') :
    (Call.storage (Table.checked path (Program.storage r))).Safe step waits fails gives v s := by
  apply safe_storage
  rw [Table.checked]
  split
  · exact .done (hfault _)
  · refine .ask rfl hw fun x s' hx => .done ?_
    cases x with
    | ok x => exact hok x s' hx
    | error e => exact herr e s' hx

end Call
end CommitTimeline
