/-
# What programs may come to

Storage may fail at any request, and the writer of the table may answer anything, so a
program that is run while nobody else asks can be done in several ways. `Program.Leads`
says in which: with what result, and with which objects stored. What is safe comes true
of each of them (`Program.Safe.of_leads`), and a run is one of them if what answers it
answers as storage can (`Program.leads_run`).

What a program is done with may also be settled whatever it is answered
(`Program.Yields`). For calls: those that keep the view (`Call.Keeps`), and those that
leave it as it was if they fail (`Call.Restores`).
-/

import CommitTimeline.Proofs.Program.Calm
import CommitTimeline.Proofs.Serial

namespace CommitTimeline
namespace Program

variable {α β σ : Type} {p : Program α} {P : α → Prop} {Q : β → Prop}

/-- Where the first objects are stored, the program may be done with a result and leave the
second ones: each of its requests has a possible answer. -/
inductive Leads : Program α → Storage.Objects → α → Storage.Objects → Prop where
  | done {a : α} {s : Storage.Objects} : Leads (.done a) s a s
  | ask {r : Request} {next : r.Answer → Program α} {x : r.Answer} {a : α}
      {s s' s'' : Storage.Objects} (he : Exchange.Leads s ⟨r, x⟩ s')
      (h : Leads (next x) s' a s'') : Leads (.ask r next) s a s''

/-- **What is safe comes true,** whatever the program comes to. -/
theorem Safe.of_leads {task : Nat} {waits : History → Prop} {post : α → History → Prop}
    {h : History} {a : α} {s s' : Storage.Objects}
    (hp : p.Safe (History.Step task) waits post h) (hs : h.objects = s) (hl : p.Leads s a s') :
    ∃ h', h'.objects = s' ∧ post a h' := by
  induction hl generalizing h with
  | done =>
    cases hp with
    | done hpost => exact ⟨h, hs, hpost⟩
  | @ask r next x a s s₁ s' he _ ih =>
    cases hp with
    | report hp =>
      obtain rfl : s₁ = s := he
      exact ih hp hs
    | ask _ _ hp =>
      refine ih (hp x ⟨⟨task, r, x⟩ :: h.acts, s₁⟩ ?_) rfl
      rw [← hs] at he
      exact .mk he

/-- A run is possible if each of its answers is. -/
theorem leads_run {answer : (r : Request) → σ → r.Answer × σ} {objects : σ → Storage.Objects}
    (h : ∀ r s, Exchange.Leads (objects s) ⟨r, (answer r s).1⟩ (objects (answer r s).2))
    (p : Program α) (s : σ) :
    p.Leads (objects s) (p.run answer s).1 (objects (p.run answer s).2) := by
  induction p generalizing s with
  | done a => exact .done
  | ask r next ih => exact .ask (h r s) (ih _ _)

/-- Whatever the answers, the program is done with a result of which `P` holds. -/
inductive Yields (P : α → Prop) : Program α → Prop where
  | done {a : α} (h : P a) : Yields P (.done a)
  | ask {r : Request} {next : r.Answer → Program α} (h : ∀ x, Yields P (next x)) :
      Yields P (.ask r next)

/-- One after the other: what comes second starts from what the first has given. -/
theorem Yields.bind {f : α → Program β} (hp : p.Yields P) (hf : ∀ a, P a → (f a).Yields Q) :
    (p.bind f).Yields Q := by
  induction hp with
  | done h => exact hf _ h
  | ask _ ih => exact .ask ih

/-- What a program yields it also gives where storage is followed. -/
theorem Yields.of_leads {a : α} {s s' : Storage.Objects} (hp : p.Yields P) (hl : p.Leads s a s') :
    P a := by
  induction hl with
  | done =>
    cases hp with
    | done h => exact h
  | ask _ _ ih =>
    cases hp with
    | ask h => exact ih (h _)

/-- What is settled whatever the answers holds where a safe program is done. -/
theorem Safe.and_yields {step : σ → Exchange → σ → Prop} {waits : σ → Prop} {post : α → σ → Prop}
    {s : σ} (h : p.Safe step waits post s) (hp : p.Yields P) :
    p.Safe step waits (fun a s => post a s ∧ P a) s := by
  induction h with
  | done h =>
    cases hp with
    | done hp => exact .done ⟨h, hp⟩
  | report _ ih =>
    cases hp with
    | ask hp => exact .report (ih (hp ()))
  | ask hr hw _ ih =>
    cases hp with
    | ask hp => exact .ask hr hw fun x s' hs => ih x s' hs (hp x)

end Program

/-- What a program comes to in calm is possible. -/
theorem Calm.leads_run {α : Type} (o : Calm) (p : Program α) (s : Scene) :
    p.Leads s.objects (p.run o.answer s).1 (p.run o.answer s).2.objects := by
  have hanswer : ∀ r s, Exchange.Leads s.objects ⟨r, (o.answer r s).1⟩ (o.answer r s).2.objects :=
    fun r s => Step.leads (o := o) rfl
  exact Program.leads_run hanswer p s

namespace Call

variable {α β : Type} {c : Call α} {v : Timeline}

/-- Whatever the call is answered, it leaves the view as it was. -/
def Keeps (c : Call α) (v : Timeline) : Prop :=
  (c.program v).Yields fun r => r.2 = v

/-- Whatever the call is answered, it leaves the view as it was if it fails. -/
def Restores (c : Call α) (v : Timeline) : Prop :=
  (c.program v).Yields fun r => ∀ e, r.1 = .error e → r.2 = v

/-- One after the other: if both keep the view, the two do. -/
theorem Keeps.bind {f : α → Call β} (hc : c.Keeps v) (hf : ∀ a, (f a).Keeps v) :
    (c >>= f).Keeps v := by
  refine Program.Yields.bind hc ?_
  rintro ⟨e | a, w⟩ rfl
  · exact .done rfl
  · exact hf a

/-- What keeps the view may come before what restores it. -/
theorem Restores.bind {f : α → Call β} (hc : c.Keeps v) (hf : ∀ a, (f a).Restores v) :
    (c >>= f).Restores v := by
  refine Program.Yields.bind hc ?_
  rintro ⟨e | a, w⟩ rfl
  · exact .done fun _ _ => rfl
  · exact hf a

/-- What gives a result does not fail. -/
theorem restores_of_ok (a : α) (w : Timeline) :
    Program.Yields (fun r : Except Error α × Timeline => ∀ e, r.1 = .error e → r.2 = v)
      (.done (.ok a, w)) := by
  refine .done ?_
  intro e he
  cases he

/-- What comes of a result cannot fail. -/
theorem Restores.map (hc : c.Restores v) (f : α → β) :
    (do return f (← c) : Call β).Restores v := by
  refine Program.Yields.bind hc ?_
  rintro ⟨e | a, w⟩ hw
  · exact .done fun _ _ => hw e rfl
  · exact restores_of_ok (f a) w

/-- A call that fails at once keeps the view. -/
theorem keeps_throw (e : Error) : (throw e : Call α).Keeps v :=
  .done rfl

/-- A call that gives a result at once keeps the view. -/
theorem keeps_pure (a : α) : (pure a : Call α).Keeps v :=
  .done rfl

/-- A call that fails at once has the view that it began with. -/
theorem restores_throw (e : Error) : (throw e : Call α).Restores v :=
  .done fun _ _ => rfl

/-- A call that changes its view and then cannot fail has nothing to restore. -/
theorem restores_modify (f : Timeline → Timeline) (a : α) :
    (modify f >>= fun _ => (pure a : Call α)).Restores v :=
  restores_of_ok a (f v)

/-- A call that replaces its view cannot fail. -/
theorem restores_set (w : Timeline) : (set w : Call Unit).Restores v :=
  restores_of_ok () w

/-- Looking at the view keeps it. -/
theorem keeps_view : Call.view.Keeps v :=
  .done rfl

/-- A notice keeps the view. -/
theorem keeps_log (n : Notice) : (Call.log n).Keeps v :=
  .ask fun _ => .done rfl

/-- A metric keeps the view. -/
theorem keeps_count (m : Metric) : (Call.count m).Keeps v :=
  .ask fun _ => .done rfl

/-- What is done in storage keeps the view. -/
theorem keeps_storage (p : Program (Except StorageError α)) : (Call.storage p).Keeps v := by
  rw [Keeps, program_storage]
  induction p with
  | done x => cases x <;> exact .done rfl
  | ask r next ih => exact .ask ih

end Call
end CommitTimeline
