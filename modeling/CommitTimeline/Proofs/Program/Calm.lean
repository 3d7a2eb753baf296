/-
# Programs in calm

Calm is an outside where nobody else asks and storage does not fail: it answers from the
objects that are stored, and lists them in an order of its own. The writer of the table
answers by what it is asked, and what it was asked to merge is recorded (`Calm.answer`).

A program runs there to its end, so what is safe in calm comes true of its run
(`Calm.run_of_safe`). A call that is safe there and never fails gives a result
(`Calm.Gives`). Whatever is safe by the answers that storage can give is safe in calm
(`Calm.safe_of_leads`).
-/

import CommitTimeline.Proofs.History

namespace CommitTimeline

/-- What is stored, and what the writer was asked to merge, the earliest first. -/
structure Scene where
  objects : Storage.Objects
  merges : List (Timestamp × Plan)
  deriving DecidableEq

/-- An outside where storage does not fail: the order in which it lists, and what the
writer answers. -/
structure Calm where
  arrange : List Storage.Meta → List Storage.Meta
  perm : ∀ l, (arrange l).Perm l
  ingest : Timestamp → Batch → Except Error CommitMetadata
  merge : Timestamp → Plan → Except Error Unit

namespace Calm

/-- Storage lists in the order of the paths, and the writer does what it is asked, with
nothing to report. -/
def plain : Calm where
  arrange := id
  perm := fun l => .refl l
  ingest := fun _ _ => .ok .none
  merge := fun _ _ => .ok ()

/-- Like plain calm, but the writer fails to merge. -/
def unmerging : Calm :=
  { plain with merge := fun _ _ => .error (.serialization "disk full") }

/-- Does what a request to storage asks for. -/
def storage (o : Calm) (objects : Storage.Objects) :
    (r : Storage.Request) → r.Answer × Storage.Objects
  | .list start => (.ok (o.arrange (objects.list start)), objects)
  | r => objects.answer r

/-- Does what a request asks for. -/
def answer (o : Calm) (r : Request) (s : Scene) : r.Answer × Scene :=
  match r with
  | .storage r =>
    let (x, objects) := o.storage s.objects r
    (x, { s with objects })
  | .ingest timestamp batch => (o.ingest timestamp batch, s)
  | .merge timestamp plan =>
    (o.merge timestamp plan, { s with merges := s.merges ++ [(timestamp, plan)] })
  | .report _ => ((), s)

/-- The exchange is the one that takes place, and leaves the second scene. -/
def Step (o : Calm) (s : Scene) (e : Exchange) (s' : Scene) : Prop :=
  o.answer e.request s = (e.answer, s')

variable {o : Calm} {s s' : Scene} {e : Exchange}

/-- What takes place in calm is possible. -/
theorem Step.leads (h : o.Step s e s') : e.Leads s.objects s'.objects := by
  obtain ⟨r, x⟩ := e
  change o.answer r s = (x, s') at h
  cases r with
  | storage r =>
    have hx : (o.storage s.objects r).1 = x := congrArg Prod.fst h
    have hs : (o.storage s.objects r).2 = s'.objects := congrArg (fun p => p.2.objects) h
    cases r with
    | list start =>
      obtain rfl := hx
      exact ⟨o.perm _, hs.symm⟩
    | get path =>
      obtain rfl := hx
      change (s.objects.answer (.get path)).2 = s'.objects at hs
      show Exchange.Leads s.objects ⟨.storage (.get path), (s.objects.answer (.get path)).1⟩ _
      rw [← hs]
      cases ho : s.objects.find? path <;> simp [Exchange.Leads, Storage.Objects.answer, ho]
    | head path =>
      obtain rfl := hx
      exact Prod.ext rfl hs
    | put path data condition =>
      obtain rfl := hx
      exact Prod.ext rfl hs
  | ingest timestamp batch => exact (congrArg (·.2.objects) h).symm
  | merge timestamp plan => exact (congrArg (·.2.objects) h).symm
  | report event => exact (congrArg (·.2.objects) h).symm

/-- **What is safe comes true of the run,** whatever the program asks. -/
theorem run_of_safe {α : Type} {waits : Scene → Prop} {post : α → Scene → Prop} {p : Program α}
    (h : p.Safe o.Step waits post s) : post (p.run o.answer s).1 (p.run o.answer s).2 := by
  induction h with
  | done h => exact h
  | report _ ih => exact ih
  | ask _ _ _ ih => exact ih _ _ rfl

/-- The call gives a result in calm, with a view and a scene of which `gives` holds. -/
def Gives {α : Type} (o : Calm) (gives : α → Timeline → Scene → Prop) (c : Call α)
    (view : Timeline) (s : Scene) : Prop :=
  c.Safe o.Step (fun _ => True) (fun _ _ => False) gives view s

section Calls

variable {α β τ : Type} {c : Call α} {v : Timeline} {gives : α → Timeline → Scene → Prop}
  {waits : Scene → Prop} {fails : Error → Scene → Prop}

/-- A call that surely gives something runs to its end, and gives it. -/
theorem Gives.run (h : o.Gives gives c v s) :
    ∃ a w s', (c.program v).run o.answer s = ((.ok a, w), s') ∧ gives a w s' := by
  have hrun := run_of_safe h
  generalize hr : (c.program v).run o.answer s = r at hrun
  obtain ⟨⟨e | a, w⟩, s'⟩ := r
  · exact hrun.elim
  · exact ⟨a, w, s', rfl, hrun⟩

/-- What is safe by the answers that storage can give is safe in calm. -/
theorem safe_of_leads {step : τ → Exchange → τ → Prop} {objects : τ → Storage.Objects}
    {waits : τ → Prop} {fails : Error → τ → Prop} {gives : α → Timeline → τ → Prop} {h : τ}
    (hc : c.Safe step waits fails gives v h) (hs : objects h = s.objects)
    (hstep : ∀ h e objects', e.Leads (objects h) objects' → ∃ h', step h e h' ∧
      objects h' = objects') :
    c.Safe o.Step (fun s' => ∃ h', objects h' = s'.objects ∧ waits h')
      (fun e s' => ∃ h', objects h' = s'.objects ∧ fails e h')
      (fun a w s' => ∃ h', objects h' = s'.objects ∧ gives a w h') v s := by
  refine hc.simulate (fun h (s : Scene) => objects h = s.objects) hs ?_
  intro h s s' e hR he
  obtain ⟨h', hh, ho⟩ := hstep h e s'.objects (hR ▸ he.leads)
  exact ⟨h', hh, ho⟩

/-- What a call asks of storage in calm, if the path allows it. -/
theorem safe_checked {path : String} {r : Storage.Request}
    {gives : r.Result → Timeline → Scene → Prop} (hw : waits s)
    (hfault : ∀ fault, Table.fault? path = some fault → fails (.storage (.badPath path fault)) s)
    (h : Table.fault? path = none → match (o.answer (.storage r) s).1 with
      | .ok a => gives a v (o.answer (.storage r) s).2
      | .error e => fails (.storage e) (o.answer (.storage r) s).2) :
    (Call.storage (Table.checked path (Program.storage r))).Safe o.Step waits fails gives v s := by
  apply Call.safe_storage
  rw [Table.checked]
  split
  · rename_i fault hpath
    exact .done (hfault fault hpath)
  · rename_i hpath
    refine .ask rfl hw fun x s' hx => .done ?_
    replace h := h hpath
    change o.answer (.storage r) s = (x, s') at hx
    rw [hx] at h
    cases x with
    | ok a => exact h
    | error e => exact h

/-- The writer merges, and what it was asked is recorded. -/
theorem safe_merge {timestamp : Timestamp} {plan : Plan} {f : Except Error Unit → Call α}
    (hw : waits s)
    (h : ∀ s', s'.objects = s.objects → s'.merges = s.merges ++ [(timestamp, plan)] →
      (f (o.merge timestamp plan)).Safe o.Step waits fails gives v s') :
    (Call.merge timestamp plan >>= f).Safe o.Step waits fails gives v s := by
  refine Call.safe_merge hw ?_
  intro x s' hx
  obtain ⟨rfl, rfl⟩ := Prod.mk.inj hx
  exact h _ rfl rfl

end Calls

end Calm
end CommitTimeline
