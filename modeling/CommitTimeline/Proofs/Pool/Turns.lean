/-
# Turns

A pool can be run. In a turn one task asks and an outside answers it in calm
(`Pool.answered`); one that waits for nothing leaves the pool as it was. What comes of
turns is reachable (`Pool.ReachableFrom.turns`), so what calls do in some order of their
requests is computed, and so is what they do one after the other (`Pool.called`).
-/

import CommitTimeline.Proofs.Pool
import CommitTimeline.Proofs.Program.Calm

namespace CommitTimeline
namespace Pool

/-- A call begins. -/
def begun (P : Pool) (table : Table) (op : Operation) (view : Timeline) : Pool :=
  ⟨P.history, P.tasks ++ [.start table op view]⟩

/-- A task asks, and an outside answers. -/
def answered (o : Calm) (P : Pool) (i : Nat) : Pool :=
  match P.tasks[i]? with
  | none => P
  | some task =>
    match task.rest with
    | .done _ => P
    | .ask r next =>
      let (x, s) := o.answer r ⟨P.history.objects, []⟩
      ⟨⟨⟨i, r, x⟩ :: P.history.acts, s.objects⟩,
        P.tasks.set i { task with rest := (next x).quiet }⟩

/-- A task asks, and all that it asks for is done. -/
def turn (P : Pool) (i : Nat) : Pool :=
  P.answered .plain i

/-- Tasks ask in the given order. -/
def turns (P : Pool) (l : List Nat) : Pool :=
  l.foldl turn P

/-- What the call of a task has come to, if it has returned. -/
def reply? (P : Pool) (i : Nat) : Option (Except Error Reply) :=
  (P.tasks[i]?.bind Task.result?).map (·.1)

/-- The view that a task has left; empty if it has not returned. -/
def viewOf (P : Pool) (i : Nat) : Timeline :=
  ((P.tasks[i]?.bind Task.result?).map (·.2)).getD .empty

/-- A call is made once all calls have returned, and an outside answers it. A call that asks
more often than this stays under way, and then no other one is made. -/
def called (o : Calm) (table : Table) (P : Pool) (op : Operation) (view : Timeline) : Pool :=
  if ∀ task ∈ P.tasks, task.result?.isSome then
    (List.replicate 32 P.tasks.length).foldl (answered o) (P.begun table op view)
  else P

variable {P : Pool} {admits : Pool → Table → Operation → Timeline → Prop}
  {base : Storage.Objects}

/-- An answer to a task is a step of it, or nothing. -/
theorem answered_step (o : Calm) (P : Pool) (i : Nat) :
    P.answered o i = P ∨
      (Step P (P.answered o i) ∧
        ∃ e, (P.answered o i).history.acts = ⟨i, e⟩ :: P.history.acts) := by
  unfold answered
  split
  · exact .inl rfl
  · rename_i task hi
    split
    · exact .inl rfl
    · rename_i r next hr
      have hleads := Calm.Step.leads (o := o) (s := ⟨P.history.objects, []⟩)
        (e := ⟨r, (o.answer r ⟨P.history.objects, []⟩).1⟩) rfl
      exact .inr ⟨.mk hi hr ⟨hleads⟩, _, rfl⟩

/-- A turn is a step of its task, or nothing. -/
theorem turn_step (P : Pool) (i : Nat) :
    P.turn i = P ∨
      (Step P (P.turn i) ∧ ∃ e, (P.turn i).history.acts = ⟨i, e⟩ :: P.history.acts) :=
  P.answered_step .plain i

namespace ReachableFrom

/-- What comes of one answer is reachable. -/
theorem answered (h : ReachableFrom base admits P) (o : Calm) (i : Nat) :
    ReachableFrom base admits (P.answered o i) := by
  rcases P.answered_step o i with hP | ⟨hs, -⟩
  · rw [hP]
    exact h
  · exact h.step hs

/-- What comes of one turn is reachable. -/
theorem turn (h : ReachableFrom base admits P) (i : Nat) : ReachableFrom base admits (P.turn i) :=
  h.answered .plain i

/-- What comes of answers in any order is reachable. -/
theorem foldl_answered (h : ReachableFrom base admits P) (o : Calm) (l : List Nat) :
    ReachableFrom base admits (l.foldl (Pool.answered o) P) :=
  List.foldlRecOn l _ h fun _ h i _ => h.answered o i

/-- **What comes of turns is reachable.** -/
theorem turns (h : ReachableFrom base admits P) (l : List Nat) :
    ReachableFrom base admits (P.turns l) :=
  h.foldl_answered .plain l

/-- What comes of a call that is made where all calls have returned is reachable, if it may begin
there. -/
theorem called (h : ReachableFrom base admits P) {o : Calm} {table : Table} {op : Operation}
    {view : Timeline}
    (ha : (∀ task ∈ P.tasks, task.result?.isSome) → admits P table op view) :
    ReachableFrom base admits (P.called o table op view) := by
  unfold Pool.called
  split
  · rename_i hreturned
    exact (h.start (ha hreturned)).foldl_answered o _
  · exact h

end ReachableFrom
end Pool
end CommitTimeline
