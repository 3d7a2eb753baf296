/-
# What programs come to in a history

What a program may come to (`Program.Comes`) is told here of a history of storage that keeps what
is asked and answered, and nothing of what is reported (`History.Records`). Whatever is safe of a
call in the history comes true of it (`Call.Safe.of_records`), and what two calls come to one
after the other is what each of them comes to (`Call.comes_bind_iff`).
-/

import CommitTimeline.Proofs.Program.Accounts

namespace CommitTimeline

namespace History

/-- What a task asks is answered and kept; what it reports is not kept. -/
inductive Records (task : Nat) : History → Exchange → History → Prop where
  | report {h : History} {e : Event} : Records task h ⟨.report e, ()⟩ h
  | ask {h h' : History} {e : Exchange} (hr : e.request.isReport = false)
      (hs : Step task h e h') : Records task h e h'

end History

/-- **What is safe comes true,** whatever the program comes to. -/
theorem Program.Safe.of_records {α : Type} {p : Program α} {task : Nat} {waits : History → Prop}
    {post : α → History → Prop} {h h' : History} {a : α}
    (hp : p.Safe (History.Step task) waits post h)
    (hc : p.Comes (History.Records task) h a h') : post a h' := by
  induction hc with
  | done =>
    cases hp with
    | done hpost => exact hpost
  | ask hs _ ih =>
    cases hp with
    | report hp =>
      cases hs with
      | report => exact ih hp
      | ask hr => cases hr
    | ask hr _ hp =>
      cases hs with
      | report => cases hr
      | ask _ hs => exact ih (hp _ _ hs)

/-- What a program comes to in an account it comes to in its history. -/
theorem Program.Comes.records {α : Type} {p : Program α} {task : Nat} {s s' : Account} {a : α}
    (hc : p.Comes (Account.Step task) s a s') :
    p.Comes (History.Records task) s.history a s'.history := by
  induction hc with
  | done => exact .done
  | ask hs _ ih =>
    cases hs with
    | log => exact .ask .report ih
    | count => exact .ask .report ih
    | ask hr hs => exact .ask (.ask hr hs) ih

/-- What is said of a call comes true, whether it fails or gives a result. -/
theorem Call.Safe.of_records {α : Type} {c : Call α} {task : Nat} {waits : History → Prop}
    {fails : Error → History → Prop} {gives : α → Timeline → History → Prop} {v : Timeline}
    {h h' : History} {r : Except Error α × Timeline}
    (hp : c.Safe (History.Step task) waits fails gives v h)
    (hc : (c.program v).Comes (History.Records task) h r h') : Ends fails gives r h' :=
  Program.Safe.of_records hp hc

/-- A program comes to its end through the end of its first part. -/
theorem Program.Comes.bind {α β σ : Type} {step : σ → Exchange → σ → Prop} {p : Program α}
    {f : α → Program β} {s s' s'' : σ} {a : α} {b : β} (h : p.Comes step s a s')
    (hf : (f a).Comes step s' b s'') : (p.bind f).Comes step s b s'' := by
  induction h with
  | done => exact hf
  | ask hs _ ih => exact .ask hs (ih hf)

/-- One call after the other fails in the first one, or comes to its end in the second one. -/
theorem Call.comes_bind_iff {α β σ : Type} {step : σ → Exchange → σ → Prop} {c : Call α}
    {f : α → Call β} {v w : Timeline} {s s' : σ} {r : Except Error β} :
    ((c >>= f).program v).Comes step s (r, w) s' ↔
      (∃ e, r = .error e ∧ (c.program v).Comes step s (.error e, w) s') ∨
        ∃ a v' s₁, (c.program v).Comes step s (.ok a, v') s₁ ∧
          ((f a).program v').Comes step s₁ (r, w) s' := by
  constructor
  · intro h
    obtain ⟨⟨e | a, v'⟩, s₁, hp, hnext⟩ := Program.Comes.of_bind h
    · cases hnext with
      | done => exact .inl ⟨e, rfl, hp⟩
    · exact .inr ⟨a, v', s₁, hp, hnext⟩
  · rintro (⟨e, rfl, hp⟩ | ⟨a, v', s₁, hp, hnext⟩)
    · exact hp.bind .done
    · exact hp.bind hnext

/-- Spans make no difference to what is asked and answered. -/
theorem Call.comes_of_within {α : Type} {span : Span} {c : Call α} {task : Nat} {v : Timeline}
    {h h' : History} {r : Except Error α × Timeline}
    (hc : ((Call.within span c).program v).Comes (History.Records task) h r h') :
    (c.program v).Comes (History.Records task) h r h' := by
  refine Program.Comes.of_within hc ?_
  intro s e s' hs
  cases hs with
  | report => exact .report
  | ask hreport => cases hreport

/-- To look at the view goes on with the view. -/
theorem Call.program_view_bind {α : Type} (f : Timeline → Call α) (v : Timeline) :
    (Call.view >>= f).program v = (f v).program v :=
  rfl

/-- Reports leave everything as it is. -/
theorem Program.Comes.of_report {α : Type} {e : Event} {next : Unit → Program α} {task : Nat}
    {h h' : History} {a : α}
    (hc : (Program.ask (.report e) next).Comes (History.Records task) h a h') :
    (next ()).Comes (History.Records task) h a h' := by
  cases hc with
  | ask hs hc =>
    cases hs with
    | report => exact hc
    | ask hr => cases hr

end CommitTimeline
