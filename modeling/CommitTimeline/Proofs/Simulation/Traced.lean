/-
# Storage with planned failures is storage

`Simulation.Traced` looks objects up, lists them and writes them in its own way, between the
checks whether the request is to fail. A request that no planned failure meets gives what
`Storage.Objects` gives, and leaves the same objects; one that meets any gives its error
and changes none (`Traced.answer_of_not_fails`, `Traced.answer_of_fails`).

So, whatever is asked and planned in between, the answers that are not planned failures are those
of storage of which only these requests were asked (`Traced.replay_run`).
-/

import CommitTimeline.Simulation.Traced

namespace CommitTimeline
namespace Simulation

/-- A request that was answered. -/
abbrev Answered : Type :=
  (r : Storage.Request) × r.Answer

/-- The answer is that of a planned failure. -/
def Answered.isPlanned (x : Answered) : Bool :=
  match x.2 with
  | .error (.plannedFailure _) | .error (.plannedPutFailure _) => true
  | _ => false

/-- The answers that are not those of planned failures. -/
def served (xs : List Answered) : List Answered :=
  xs.filter fun x => !x.isPlanned

/-- Asks storage for one thing after the other. -/
def replay (s : Storage.Objects) : List Storage.Request → List Answered × Storage.Objects
  | [] => ([], s)
  | r :: requests =>
    let (x, s) := s.answer r
    let (xs, s) := replay s requests
    (⟨r, x⟩ :: xs, s)

namespace Traced

/-- What is done with storage that fails on demand. -/
inductive Step where
  | request (r : Storage.Request)
  | failPaths (start : String)
  | failPuts (start : String)
  | failNextPuts (start : String) (count : Nat)
  | clearFailures
  | clearOperations
  deriving DecidableEq

/-- The request of a step, if it is one. -/
def Step.request? : Step → Option Storage.Request
  | .request r => some r
  | _ => none

/-- The step plans a failure. -/
def Step.Plans : Step → Prop
  | .failPaths _ | .failPuts _ | .failNextPuts .. => True
  | _ => False

/-- What one step is answered, if it asks for something, and what it leaves. -/
def after (s : Traced) : Step → List Answered × Traced
  | .request r =>
    let (x, s) := s.answer r
    ([⟨r, x⟩], s)
  | .failPaths start => ([], s.failPaths start)
  | .failPuts start => ([], s.failPuts start)
  | .failNextPuts start count => ([], s.failNextPuts start count)
  | .clearFailures => ([], s.clearFailures)
  | .clearOperations => ([], s.clearOperations)

/-- One step after the other. -/
def run (s : Traced) : List Step → List Answered × Traced
  | [] => ([], s)
  | step :: steps =>
    let (xs, s) := s.after step
    let (ys, s) := s.run steps
    (xs ++ ys, s)

/-- A planned failure meets the request: one of all operations on its path, or one of puts there. -/
def Fails (s : Traced) (r : Storage.Request) : Prop :=
  s.failing.any (startsWith r.path) = true ∨
    ∃ path data condition, r = .put path data condition ∧
      ∃ f ∈ s.failingPuts, startsWith path f.start = true

/-- No failure is planned. -/
def IsReliable (s : Traced) : Prop :=
  s.failing = [] ∧ s.failingPuts = []

variable {s : Traced} {r : Storage.Request} {path : String} {steps : List Step}

/-- What was served in two parts of a trace. -/
theorem served_append (xs ys : List Answered) : served (xs ++ ys) = served xs ++ served ys :=
  List.filter_append ..

/-- A planned failure was not served. -/
theorem served_of_isPlanned {x : Answered} (h : x.isPlanned = true) : served [x] = [] := by
  simp [served, h]

/-- All but planned failures were served. -/
theorem served_of_not_isPlanned {x : Answered} (h : x.isPlanned = false) : served [x] = [x] := by
  simp [served, h]

/-- A condition keeps a write from happening in both kinds of storage alike. -/
theorem refusal?_eq (existing : Option Storage.Object) (condition : Storage.Precondition) :
    refusal? existing condition =
      if Storage.Objects.allows condition existing then none
      else some ((existing.map (·.token)).getD "0") := by
  cases condition with
  | anything => cases existing <;> rfl
  | absent => cases existing <;> rfl
  | version token =>
    cases existing with
    | none => rfl
    | some o =>
      have hnumber : (o.version : Int) = (Text.integer? token.toList).getD (-1) ↔
          o.isNamedBy token = true := by
        rw [Storage.Object.isNamedBy, decide_eq_true_iff]
        -- a token that is no number stands for a version that there is not
        cases Text.integer? token.toList with
        | none =>
          refine iff_of_false ?_ (Option.some_ne_none _).symm
          rw [Option.getD_none]
          omega
        | some n =>
          rw [Option.getD_some, Option.some.injEq]
          exact eq_comm
      by_cases h : o.isNamedBy token = true
      · exact (if_pos (hnumber.2 h)).trans (if_pos h).symm
      · exact (if_neg fun hn => h (hnumber.1 hn)).trans (if_neg h).symm

/-- A write of its own does what a put does. -/
theorem write_eq (s : Traced) (path : String) (data : Bytes) (condition : Storage.Precondition) :
    s.write path data condition = ((s.objects.put path data condition).1,
      { s with objects := (s.objects.put path data condition).2 }) := by
  rw [write, refusal?_eq, Storage.Objects.put]
  by_cases h : Storage.Objects.allows condition (s.objects.find? path) = true
  · rw [if_pos h, if_pos h]
    cases s.objects.find? path with
    | none => rfl
    | some o => rfl
  · rw [if_neg h, if_neg h]

/-- A listing of its own lists what storage lists. -/
theorem listed_eq (s : Traced) (start : String) : s.listed start = s.objects.list start := by
  rw [listed, Storage.Objects.list, ← List.filterMap_eq_map, List.filterMap_filter]
  rfl

/-- No planned failure of puts is spent just if none covers the path. -/
theorem spend?_eq_none {l : List FailingPuts} :
    spend? path l = none ↔ ∀ f ∈ l, ¬startsWith path f.start = true := by
  induction l with
  | nil => simp [spend?]
  | cons f fs ih =>
    rw [spend?, List.forall_mem_cons]
    split
    · rename_i h
      refine iff_of_false ?_ fun hn => hn.1 h
      split
      · exact Option.some_ne_none _
      split <;> exact Option.some_ne_none _
    · rename_i h
      rw [Option.map_eq_none_iff, ih, and_iff_right h]

/-- **A planned failure changes no object.** -/
theorem answer_of_fails (h : s.Fails r) :
    Answered.isPlanned ⟨r, (s.answer r).1⟩ = true ∧ (s.answer r).2.objects = s.objects := by
  unfold answer
  split
  · exact ⟨rfl, rfl⟩
  · rename_i hpath
    obtain ⟨path, data, condition, rfl, f, hf, hcovers⟩ := h.resolve_left hpath
    dsimp only
    split
    · exact ⟨rfl, rfl⟩
    · rename_i hnone
      exact absurd hcovers (spend?_eq_none.1 hnone f hf)

/-- **What no planned failure meets is answered as by storage,** and leaves the same objects. -/
theorem answer_of_not_fails (h : ¬s.Fails r) :
    s.answer r = ((s.objects.answer r).1,
      { s with
        objects := (s.objects.answer r).2
        operations := s.operations ++ [Operation.ofRequest r] }) := by
  obtain ⟨hpath, hputs⟩ := not_or.1 h
  unfold answer
  rw [if_neg hpath]
  cases r with
  | list start => exact Prod.ext (congrArg Except.ok (listed_eq _ start)) rfl
  | get path =>
    dsimp only [read, Storage.Objects.answer]
    cases s.objects.find? path <;> rfl
  | head path => rfl
  | put path data condition =>
    have hnone : spend? path s.failingPuts = none := spend?_eq_none.2 fun f hf hcovers =>
      hputs ⟨path, data, condition, rfl, f, hf, hcovers⟩
    dsimp only
    rw [hnone]
    dsimp only
    rw [write_eq]
    rfl

/-- Storage plans no failures. -/
theorem isPlanned_answer (s : Storage.Objects) (r : Storage.Request) :
    Answered.isPlanned ⟨r, (s.answer r).1⟩ = false := by
  cases r with
  | get path =>
    dsimp only [Storage.Objects.answer]
    cases s.find? path <;> rfl
  | _ => rfl

/-- A request is answered once. -/
theorem after_request (s : Traced) (r : Storage.Request) :
    s.after (.request r) = ([⟨r, (s.answer r).1⟩], (s.answer r).2) :=
  rfl

/-- One step is seen in storage as the request that it asks, unless this was to fail. -/
theorem replay_after (s : Traced) (step : Step) :
    replay s.objects ((served (s.after step).1).map (·.1)) =
      (served (s.after step).1, (s.after step).2.objects) := by
  cases step with
  | request r =>
    rw [after_request]
    by_cases h : s.Fails r
    · obtain ⟨hplanned, hobjects⟩ := answer_of_fails h
      rw [served_of_isPlanned hplanned, hobjects]
      rfl
    · rw [answer_of_not_fails h, served_of_not_isPlanned (isPlanned_answer s.objects r)]
      rfl
  | failNextPuts start count =>
    show ([], s.objects) = ([], (s.failNextPuts start count).objects)
    rw [failNextPuts]
    split <;> rfl
  | _ => rfl

/-- A replay begins with the first request. -/
theorem replay_cons (s : Storage.Objects) (r : Storage.Request) (l : List Storage.Request) :
    replay s (r :: l) = (⟨r, (s.answer r).1⟩ :: (replay (s.answer r).2 l).1,
      (replay (s.answer r).2 l).2) :=
  rfl

/-- A replay goes on from where the first part has come to. -/
theorem replay_append (s : Storage.Objects) (l l' : List Storage.Request) :
    replay s (l ++ l') = ((replay s l).1 ++ (replay (replay s l).2 l').1,
      (replay (replay s l).2 l').2) := by
  induction l generalizing s with
  | nil => rfl
  | cons r l ih => rw [List.cons_append, replay_cons, ih, replay_cons, List.cons_append]

/-- **The answers that are no planned failures are those of storage of which only these requests
were asked,** and the objects are the same. -/
theorem replay_run (s : Traced) (steps : List Step) :
    replay s.objects ((served (s.run steps).1).map (·.1)) =
      (served (s.run steps).1, (s.run steps).2.objects) := by
  induction steps generalizing s with
  | nil => rfl
  | cons step steps ih =>
    have hstep := s.replay_after step
    rw [run]
    dsimp only
    rw [served_append, List.map_append, replay_append, hstep, ih]

/-- Reliable storage fails at no request. -/
theorem IsReliable.not_fails (h : s.IsReliable) (r : Storage.Request) : ¬s.Fails r := by
  rintro (hpath | ⟨path, data, condition, -, f, hf, -⟩)
  · rw [h.1] at hpath
    cases hpath
  · rw [h.2] at hf
    cases hf

/-- Where no failure is planned, steps that plan none leave it so. -/
theorem IsReliable.after (h : s.IsReliable) {step : Step} (hstep : ¬step.Plans) :
    (s.after step).2.IsReliable := by
  cases step with
  | request r =>
    rw [after_request, answer_of_not_fails (h.not_fails r)]
    exact h
  | clearFailures => exact ⟨rfl, rfl⟩
  | clearOperations => exact h
  | _ => exact absurd trivial hstep

/-- **Where no failure is planned, all is answered as by storage.** -/
theorem IsReliable.run_eq (h : s.IsReliable) (hsteps : ∀ step ∈ steps, ¬step.Plans) :
    replay s.objects (steps.filterMap Step.request?) =
      ((s.run steps).1, (s.run steps).2.objects) := by
  induction steps generalizing s with
  | nil => rfl
  | cons step steps ih =>
    have hstep := hsteps step List.mem_cons_self
    have ih := ih (h.after hstep) fun step hs => hsteps step (List.mem_cons_of_mem _ hs)
    cases step with
    | request r =>
      rw [after_request, answer_of_not_fails (h.not_fails r)] at ih
      rw [run, after_request, answer_of_not_fails (h.not_fails r),
        List.filterMap_cons_some (show Step.request? (.request r) = some r from rfl), replay_cons,
        ih]
      rfl
    | clearFailures => exact ih
    | clearOperations => exact ih
    | _ => exact absurd trivial hstep

/-- **Storage that fails on demand is storage.** Whatever is asked and planned, the answers that are
no planned failures, and the objects in the end, are those of storage of which only these
requests were asked. A request is answered by a planned failure just if one meets it, and then it
changes no object. Where none is planned, nothing tells the two kinds of storage apart. -/
theorem refines :
    (∀ (s : Traced) (steps : List Step),
      replay s.objects ((served (s.run steps).1).map (·.1)) =
        (served (s.run steps).1, (s.run steps).2.objects)) ∧
    (∀ (s : Traced) (r : Storage.Request),
      (Answered.isPlanned ⟨r, (s.answer r).1⟩ = true ↔ s.Fails r) ∧
        (s.Fails r → (s.answer r).2.objects = s.objects)) ∧
    ∀ (s : Traced) (steps : List Step), s.IsReliable → (∀ step ∈ steps, ¬step.Plans) →
      replay s.objects (steps.filterMap Step.request?) =
        ((s.run steps).1, (s.run steps).2.objects) := by
  refine ⟨replay_run, ?_, fun s steps h hsteps => h.run_eq hsteps⟩
  intro s r
  refine ⟨⟨?_, fun h => (answer_of_fails h).1⟩, fun h => (answer_of_fails h).2⟩
  intro hplanned
  by_cases h : s.Fails r
  · exact h
  · rw [answer_of_not_fails h, isPlanned_answer] at hplanned
    cases hplanned

/-- One put is to fail. It fails and is forgotten, and the second one is answered as by storage. -/
theorem refines_of_failingPut :
    ∃ (s u : Traced) (r : Storage.Request), s.Fails r ∧ u = (s.answer r).2 ∧
      u.objects = s.objects ∧ u.IsReliable ∧
      replay u.objects [r] = ((u.run [.request r]).1, (u.run [.request r]).2.objects) := by
  let s : Traced := empty.failNextPuts "a" 1
  let r : Storage.Request := .put "a" [] .absent
  obtain ⟨-, hanswer, hrun⟩ := refines
  have hfails : s.Fails r := .inr ⟨"a", [], .absent, rfl, ⟨"a", some 1⟩, List.mem_cons_self,
    by decide⟩
  have hreliable : (s.answer r).2.IsReliable := by
    constructor <;> decide
  have hsteps : ∀ step ∈ [Step.request r], ¬step.Plans := by
    intro step hstep
    rw [List.mem_singleton.1 hstep]
    exact not_false
  exact ⟨s, _, r, hfails, rfl, (hanswer s r).2 hfails, hreliable,
    hrun (s.answer r).2 [.request r] hreliable hsteps⟩

end Traced
end Simulation
end CommitTimeline
