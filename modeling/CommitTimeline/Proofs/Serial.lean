/-
# Calls one after the other

A pool is serial if a call begins only where all calls before have returned. Then only
the last task asks, and what it has asked since it began leads from the history in
which it began to the present one (`History.Runs`). An invariant of histories that
every call keeps holds at every moment of a serial pool (`Pool.Serial.of_reachable`).

What is created are the objects that were written where there was nothing
(`History.creations`).
-/

import CommitTimeline.Proofs.Pool

namespace CommitTimeline

/-- What was written where there was nothing: the path and the data. -/
def Exchange.creation? : Exchange → Option (String × Bytes)
  | ⟨.storage (.put path data .absent), .ok (.stored _)⟩ => some (path, data)
  | _ => none

/-- An exchange that wrote nothing created nothing. -/
theorem Exchange.creation?_of_idle {e : Exchange} (h : e.write? = none) : e.creation? = none := by
  unfold creation?
  split
  · cases h
  · rfl

/-- A creation is a write. -/
theorem Exchange.write?_of_creation? {e : Exchange} {c : String × Bytes}
    (h : e.creation? = some c) : e.write? = some c := by
  unfold creation? at h
  split at h
  · exact h
  · cases h

namespace History

/-- What was created, the latest first. -/
def creations (acts : List Act) : List (String × Bytes) :=
  acts.filterMap (·.exchange.creation?)

/-- The exchanges of a task, the latest first, lead from one history to another while
no other task asks. -/
inductive Runs (task : Nat) (h : History) : List Exchange → History → Prop where
  | nil : Runs task h [] h
  | cons {own : List Exchange} {e : Exchange} {h' h'' : History} (hr : Runs task h own h')
      (hs : Step task h' e h'') : Runs task h (e :: own) h''

variable {task : Nat} {h h' : History} {own : List Exchange} {e : Exchange}

/-- A step adds at most its own creation to those before. -/
theorem Step.creations (hs : Step task h e h') :
    creations h'.acts = match e.creation? with
      | some c => c :: creations h.acts
      | none => creations h.acts := by
  obtain ⟨-⟩ := hs
  cases he : e.creation? with
  | none => exact List.filterMap_cons_none he
  | some c => exact List.filterMap_cons_some he

/-- What a step makes of the objects is what its exchange leads to. -/
theorem Step.leads (hs : Step task h e h') : e.Leads h.objects h'.objects := by
  obtain ⟨he⟩ := hs
  exact he

/-- Where nothing was written, all was answered from the same objects. -/
theorem Runs.leads_of_idle (hr : Runs task h own h') (hidle : ∀ e ∈ own, e.write? = none) :
    h'.objects = h.objects ∧ creations h'.acts = creations h.acts ∧
      ∀ e ∈ own, e.Leads h.objects h.objects := by
  induction hr with
  | nil =>
    refine ⟨rfl, rfl, ?_⟩
    intro e he
    cases he
  | @cons own e h' h'' hr hs ih =>
    obtain ⟨hobjects, hcreations, hleads⟩ := ih fun f hf => hidle f (List.mem_cons_of_mem e hf)
    have hw : e.write? = none := hidle e List.mem_cons_self
    have he : e.Leads h.objects h''.objects := hobjects ▸ hs.leads
    have hsame : h''.objects = h.objects := he.eq_of_idle hw
    refine ⟨hsame, ?_, ?_⟩
    · rw [hs.creations, Exchange.creation?_of_idle hw, hcreations]
    · intro f hf
      rcases List.mem_cons.1 hf with rfl | hf
      · rw [hsame] at he
        exact he
      · exact hleads f hf

/-- What a task asks comes on top of what was asked before. -/
theorem Runs.acts (hr : Runs task h own h') : h'.acts = own.map (Act.mk task) ++ h.acts := by
  induction hr with
  | nil => rfl
  | cons _ hs ih =>
    obtain ⟨-⟩ := hs
    rw [List.map_cons, List.cons_append, ← ih]

end History

/-- A call that is safe alone is safe from where it begins, if nobody else asks. -/
theorem Call.Safe.runs {α : Type} {c : Call α} {waits : List Exchange → Prop}
    {fails : Error → List Exchange → Prop} {gives : α → Timeline → List Exchange → Prop}
    {v : Timeline} (hc : c.Safe Alone waits fails gives v []) (task : Nat) (h : History) :
    c.Safe (History.Step task) (fun h' => ∃ own, History.Runs task h own h' ∧ waits own)
      (fun e h' => ∃ own, History.Runs task h own h' ∧ fails e own)
      (fun a w h' => ∃ own, History.Runs task h own h' ∧ gives a w own) v h := by
  refine hc.simulate (History.Runs task h) .nil ?_
  intro own h' h'' e hr hs
  exact ⟨e :: own, rfl, hr.cons hs⟩

/-- Acts come on top of what was there when a call began. -/
theorem Call.Safe.extends {α : Type} {c : Call α} {waits : History → Prop}
    {fails : Error → History → Prop} {gives : α → Timeline → History → Prop} {v : Timeline}
    {task : Nat} {h : History} (hc : c.Safe (History.Step task) waits fails gives v h) :
    c.Safe (History.Step task) (fun h' => (∃ l, h'.acts = l ++ h.acts) ∧ waits h')
      (fun e h' => (∃ l, h'.acts = l ++ h.acts) ∧ fails e h')
      (fun a w h' => (∃ l, h'.acts = l ++ h.acts) ∧ gives a w h') v h := by
  refine (hc.simulate (fun s t => s = t ∧ ∃ l, t.acts = l ++ h.acts) ⟨rfl, [], rfl⟩ ?_).mono
    ?_ ?_ ?_
  · rintro s t t' e ⟨rfl, l, hl⟩ hs
    refine ⟨t', hs, rfl, ⟨task, e⟩ :: l, ?_⟩
    obtain ⟨-⟩ := hs
    exact congrArg (⟨task, e⟩ :: ·) hl
  · rintro t ⟨s, ⟨rfl, hl⟩, hw⟩
    exact ⟨hl, hw⟩
  · rintro e t ⟨s, ⟨rfl, hl⟩, hf⟩
    exact ⟨hl, hf⟩
  · rintro a w t ⟨s, ⟨rfl, hl⟩, hg⟩
    exact ⟨hl, hg⟩

namespace Pool

/-- An invariant holds, all calls but the last one have returned, and the last one keeps
the invariant; `gives` is what a call that returns a reply has reached. -/
structure Serial (I : History → Prop) (gives : Operation → Reply → Timeline → History → Prop)
    (P : Pool) : Prop where
  holds : I P.history
  tasks : P.tasks = [] ∨ ∃ before last, P.tasks = before ++ [last] ∧
    (∀ task ∈ before, task.result?.isSome) ∧ (∃ p : Program (Except Error Reply × Timeline),
      last.rest = p.quiet) ∧
    last.rest.Safe (History.Step before.length) I
      (Call.Ends (fun _ => I) fun r w h => I h ∧ gives last.operation r w h) P.history

/-- The last call has returned a reply, and a view. -/
def Returned (P : Pool) (op : Operation) (r : Reply) (w : Timeline) : Prop :=
  ∃ task, P.tasks.getLast? = some task ∧ task.operation = op ∧ task.result? = some (.ok r, w)

namespace Serial

variable {I : History → Prop} {gives : Operation → Reply → Timeline → History → Prop}
  {admits : Pool → Table → Operation → Timeline → Prop} {base : Storage.Objects} {P P' : Pool}

/-- What a serial step gives holds of every call that has returned, at the objects of the end. -/
theorem of_returned (h : Serial I gives P) {op : Operation} {r : Reply} {w : Timeline}
    (hr : P.Returned op r w) : gives op r w P.history := by
  obtain ⟨task, hlast, rfl, hresult⟩ := hr
  rcases h.tasks with htasks | ⟨before, last, htasks, -, -, hsafe⟩
  · rw [htasks] at hlast
    cases hlast
  · rw [htasks, List.getLast?_concat, Option.some.injEq] at hlast
    subst hlast
    unfold Task.result? at hresult
    split at hresult
    · rename_i hdone
      rw [hdone, Option.some.inj hresult] at hsafe
      cases hsafe with
      | done hends => exact hends.2
    · cases hresult

/-- Only the last task asks, and the invariant is kept. -/
theorem step (h : Serial I gives P) (hs : Step P P') : Serial I gives P' := by
  obtain @⟨g, g', tasks, i, task, r, next, x, hi, hr, hstep⟩ := hs
  rcases h.tasks with htasks | ⟨before, last, htasks, hreturned, ⟨p, hp⟩, hsafe⟩
  · obtain rfl : tasks = [] := htasks
    cases hi
  obtain rfl : tasks = before ++ [last] := htasks
  rw [List.getElem?_append] at hi
  split at hi
  · have hnone := hreturned task (List.mem_of_getElem? hi)
    unfold Task.result? at hnone
    rw [hr] at hnone
    cases hnone
  · rename_i hlt
    rw [List.getElem?_singleton] at hi
    split at hi
    · rename_i h0
      obtain rfl := Option.some.inj hi
      obtain rfl : i = before.length := by omega
      rw [hr] at hsafe hp
      have hnext := (hsafe.answered (Program.isReport_of_quiet hp.symm)).2 x g' hstep
      refine ⟨?_, .inr ⟨before, { last with rest := (next x).quiet }, ?_, hreturned, ⟨_, rfl⟩,
        hnext.quiet⟩⟩
      · exact hnext.holds_of_quiet fun
          | (.ok _, _), _, hends => hends.1
          | (.error _, _), _, hends => hends
      · rw [List.set_append_right _ _ (Nat.le_refl _), Nat.sub_self]
        rfl
    · cases hi

/-- A call begins where all calls have returned. -/
theorem start (h : Serial I gives P) (hreturned : ∀ task ∈ P.tasks, task.result?.isSome)
    {table : Table} {op : Operation} {v : Timeline}
    (hc : (op.call table).Safe (History.Step P.tasks.length) I (fun _ => I)
      (fun r w g => I g ∧ gives op r w g) v P.history) :
    Serial I gives ⟨P.history, P.tasks ++ [.start table op v]⟩ where
  holds := h.holds
  tasks := .inr ⟨P.tasks, _, rfl, hreturned, ⟨_, rfl⟩, hc.quiet⟩

/-- **What every call keeps holds at every moment,** if calls come one after the other. -/
theorem of_reachable (hbase : I ⟨[], base⟩)
    (hreturned : ∀ {P table op v}, admits P table op v → ∀ task ∈ P.tasks, task.result?.isSome)
    (hcall : ∀ {P table op v}, admits P table op v → Serial I gives P →
      (op.call table).Safe (History.Step P.tasks.length) I (fun _ => I)
        (fun r w g => I g ∧ gives op r w g) v P.history)
    (h : ReachableFrom base admits P) : Serial I gives P := by
  induction h with
  | empty => exact ⟨hbase, .inl rfl⟩
  | start _ ha ih => exact ih.start (hreturned ha) (hcall ha ih)
  | step _ hs ih => exact ih.step hs

end Serial
end Pool
end CommitTimeline
