/-
# Failing puts are spent one by one

For each of some starts of paths a number of puts is to fail: a `Budget`. A put that some plan of
the budget covers fails and spends one unit of one such plan (`Budget.Spends`), and one that none
covers any more is answered as by storage. `Budget.Serves` says so of puts one after the
other, with nothing of the list of plans that `Simulation.Traced` keeps: this list
drops a plan with its last unit, and is the budget without the plans that are used up
(`Budget.failing`).

Each put answers to this rule (`Budget.answer_put`), so any number of them does
(`Budget.exists_serves`). What the rule says of their number is counted along the puts
(`Serves.total_eq`, `Serves.map_isPlanned`).
-/

import CommitTimeline.Proofs.Simulation.Traced

namespace CommitTimeline
namespace Simulation

/-- A put that storage is asked for. -/
structure Put where
  path : String
  data : Bytes
  condition : Storage.Precondition

/-- The request for a put. -/
def Put.request (p : Put) : Storage.Request :=
  .put p.path p.data p.condition

/-- How many puts are still to fail, for each start of their paths. -/
abbrev Budget : Type :=
  List (String × Nat)

namespace Budget

/-- How many puts on a path are still to fail, by all plans that cover it. -/
def units (path : String) : Budget → Nat
  | [] => 0
  | (start, n) :: b => (if Traced.startsWith path start then n else 0) + units path b

/-- How many puts are still to fail, by all plans. -/
def total : Budget → Nat
  | [] => 0
  | (_, n) :: b => n + total b

/-- A put on a path spends one unit of one plan that covers the path. -/
inductive Spends (path : String) : Budget → Budget → Prop where
  | here {start : String} {n : Nat} {b : Budget} (covers : Traced.startsWith path start = true) :
    Spends path ((start, n + 1) :: b) ((start, n) :: b)
  | there {plan : String × Nat} {b b' : Budget} (spends : Spends path b b') :
    Spends path (plan :: b) (plan :: b')

/-- How puts are answered one after the other, and what is left of the budget and of the objects:
a put that spends a unit fails and changes no object, and where none is left for its path it is
answered as by storage. -/
inductive Serves : Budget → Storage.Objects → List Answered → Budget → Storage.Objects → Prop where
  | done {b : Budget} {o : Storage.Objects} : Serves b o [] b o
  | fails {b b' left : Budget} {o o' : Storage.Objects} {p : Put} {answers : List Answered}
    (spends : b.Spends p.path b') (rest : Serves b' o answers left o') :
    Serves b o (⟨p.request, .error (.plannedPutFailure p.path)⟩ :: answers) left o'
  | passes {b left : Budget} {o o' : Storage.Objects} {p : Put} {answers : List Answered}
    (none : b.units p.path = 0) (rest : Serves b (o.answer p.request).2 answers left o') :
    Serves b o (⟨p.request, (o.answer p.request).1⟩ :: answers) left o'

/-- The budget as storage keeps it, without the plans that are used up. -/
def failing (b : Budget) : List FailingPuts :=
  (b.filter fun plan => plan.2 ≠ 0).map fun plan => ⟨plan.1, some plan.2⟩

/-- The budget is planned, one start of paths after the other. -/
def steps (b : Budget) : List Traced.Step :=
  b.map fun plan => .failNextPuts plan.1 plan.2

variable {b b' left : Budget} {s : Traced} {path : String} {o o' : Storage.Objects}
  {answers : List Answered}

/-- A registration that is spent fails nothing. -/
theorem failing_cons_zero (start : String) (b : Budget) : failing ((start, 0) :: b) = b.failing :=
  rfl

/-- A registration that is not spent fails the next matching puts. -/
theorem failing_cons_succ (start : String) (n : Nat) (b : Budget) :
    failing ((start, n + 1) :: b) = ⟨start, some (n + 1)⟩ :: b.failing :=
  rfl

/-- Each unit that is spent on a path is one less for it. -/
theorem Spends.units_eq (h : b.Spends path b') : b.units path = b'.units path + 1 := by
  induction h with
  | here covers =>
    rw [units, units, if_pos covers, if_pos covers]
    omega
  | there _ ih =>
    rw [units, units, ih]
    omega

/-- Each unit that is spent is one less of all. -/
theorem Spends.total_eq (h : b.Spends path b') : b.total = b'.total + 1 := by
  induction h with
  | here =>
    rw [total, total]
    omega
  | there _ ih =>
    rw [total, total, ih]
    omega

/-- **The list of plans is spent as the budget is:** a unit of it, if one is left for the path. -/
theorem spend?_failing (path : String) (b : Budget) :
    (b.units path = 0 ∧ Traced.spend? path b.failing = none) ∨
      ∃ b', b.Spends path b' ∧ Traced.spend? path b.failing = some b'.failing := by
  induction b with
  | nil => exact .inl ⟨rfl, rfl⟩
  | cons plan b ih =>
    obtain ⟨start, n⟩ := plan
    cases n with
    | zero =>
      -- a plan that is used up is none that storage keeps
      rw [failing_cons_zero, units, ite_self, Nat.zero_add]
      refine ih.imp_right ?_
      rintro ⟨b', hspends, heq⟩
      exact ⟨(start, 0) :: b', .there hspends, heq⟩
    | succ n =>
      rw [failing_cons_succ, units, Traced.spend?]
      split
      · rename_i hcovers
        refine .inr ⟨(start, n) :: b, .here hcovers, ?_⟩
        cases n with
        | zero => rfl
        | succ n => rfl
      · rw [Nat.zero_add]
        refine ih.imp ?_ ?_
        · rintro ⟨hunits, hnone⟩
          rw [hnone]
          exact ⟨hunits, rfl⟩
        · rintro ⟨b', hspends, heq⟩
          rw [heq]
          exact ⟨(start, n + 1) :: b', .there hspends, rfl⟩

/-- What is planned comes behind what was planned before. -/
theorem run_steps (s : Traced) (b : Budget) (later : List Traced.Step) :
    s.run (b.steps ++ later) =
      { s with failingPuts := s.failingPuts ++ b.failing }.run later := by
  induction b generalizing s with
  | nil =>
    rw [failing, List.filter_nil, List.map_nil, List.append_nil]
    rfl
  | cons plan b ih =>
    obtain ⟨start, n⟩ := plan
    have hcons : s.run (steps ((start, n) :: b) ++ later) =
        (s.failNextPuts start n).run (steps b ++ later) := rfl
    cases n with
    | zero =>
      rw [hcons, ih]
      rfl
    | succ n =>
      rw [hcons, ih, Traced.failNextPuts, if_neg (Nat.succ_ne_zero n), failing_cons_succ]
      dsimp only
      rw [List.append_assoc, List.singleton_append]

/-- **A put fails and spends a unit, or none is left for its path** and it is answered as by
storage. -/
theorem answer_put (hpaths : s.failing = []) (hputs : s.failingPuts = b.failing) (p : Put) :
    (∃ b', b.Spends p.path b' ∧ (s.answer p.request).1 = .error (.plannedPutFailure p.path) ∧
      (s.answer p.request).2.objects = s.objects ∧ (s.answer p.request).2.failing = [] ∧
      (s.answer p.request).2.failingPuts = b'.failing) ∨
    (b.units p.path = 0 ∧ (s.answer p.request).1 = (s.objects.answer p.request).1 ∧
      (s.answer p.request).2.objects = (s.objects.answer p.request).2 ∧
      (s.answer p.request).2.failing = [] ∧ (s.answer p.request).2.failingPuts = b.failing) := by
  rcases spend?_failing p.path b with ⟨hunits, hnone⟩ | ⟨b', hspends, hsome⟩
  · have hfails : ¬s.Fails p.request := by
      rintro (hpath | ⟨path, data, condition, hr, f, hf, hcovers⟩)
      · rw [hpaths] at hpath
        cases hpath
      · obtain ⟨rfl, -, -⟩ := Storage.Request.put.inj hr
        exact Traced.spend?_eq_none.1 hnone f (hputs ▸ hf) hcovers
    rw [Traced.answer_of_not_fails hfails]
    exact .inr ⟨hunits, rfl, rfl, hpaths, hputs⟩
  · refine .inl ⟨b', hspends, ?_⟩
    have hpass : ¬s.failing.any (Traced.startsWith p.request.path) = true := by
      rw [hpaths]
      exact Bool.false_ne_true
    rw [Traced.answer, if_neg hpass, Put.request]
    dsimp only
    rw [hputs, hsome]
    exact ⟨rfl, rfl, hpaths, rfl⟩

/-- **Any number of puts is answered as the budget says.** -/
theorem exists_serves (hpaths : s.failing = []) (hputs : s.failingPuts = b.failing)
    (puts : List Put) :
    ∃ left, Serves b s.objects (s.run (puts.map fun p => .request p.request)).1 left
        (s.run (puts.map fun p => .request p.request)).2.objects ∧
      (s.run (puts.map fun p => .request p.request)).2.failingPuts = left.failing ∧
      (s.run (puts.map fun p => .request p.request)).1.map (·.1) = puts.map Put.request := by
  induction puts generalizing s b with
  | nil => exact ⟨b, .done, hputs, rfl⟩
  | cons p puts ih =>
    have hrun : s.run ((p :: puts).map fun p => .request p.request) =
        (⟨p.request, (s.answer p.request).1⟩ ::
          ((s.answer p.request).2.run (puts.map fun p => .request p.request)).1,
          ((s.answer p.request).2.run (puts.map fun p => .request p.request)).2) := rfl
    rw [hrun]
    rcases answer_put hpaths hputs p with ⟨b', hspends, hx, ho, hpaths', hputs'⟩ |
      ⟨hunits, hx, ho, hpaths', hputs'⟩
    · obtain ⟨left, hserves, hleft, hrequests⟩ := ih hpaths' hputs'
      rw [ho] at hserves
      rw [hx]
      exact ⟨left, .fails hspends hserves, hleft, congrArg (p.request :: ·) hrequests⟩
    · obtain ⟨left, hserves, hleft, hrequests⟩ := ih hpaths' hputs'
      rw [ho] at hserves
      rw [hx]
      exact ⟨left, .passes hunits hserves, hleft, congrArg (p.request :: ·) hrequests⟩

/-- **As many puts fail as units are spent.** -/
theorem Serves.total_eq (h : Serves b o answers left o') :
    answers.countP Answered.isPlanned + left.total = b.total := by
  induction h with
  | done => exact Nat.zero_add _
  | fails spends _ ih =>
    rw [List.countP_cons_of_pos rfl, spends.total_eq]
    omega
  | @passes _ _ o _ p _ _ _ ih =>
    rw [List.countP_cons_of_neg (by rw [Traced.isPlanned_answer]; exact Bool.false_ne_true), ih]

/-- **Of puts on one path the first ones fail,** as many as units are left for it. -/
theorem Serves.map_isPlanned (h : Serves b o answers left o')
    (hpath : ∀ x ∈ answers, x.1.path = path) :
    answers.map Answered.isPlanned =
      List.replicate (min answers.length (b.units path)) true ++
        List.replicate (answers.length - b.units path) false := by
  induction h with
  | done => simp
  | @fails _ _ _ _ _ p _ spends _ ih =>
    obtain rfl : p.path = path := hpath _ List.mem_cons_self
    rw [List.map_cons, ih fun x hx => hpath x (List.mem_cons_of_mem _ hx), spends.units_eq,
      List.length_cons, Nat.add_min_add_right, Nat.add_sub_add_right, List.replicate_succ]
    rfl
  | @passes _ _ o _ p _ none _ ih =>
    obtain rfl : p.path = path := hpath _ List.mem_cons_self
    rw [List.map_cons, ih fun x hx => hpath x (List.mem_cons_of_mem _ hx), none,
      Traced.isPlanned_answer]
    simp [List.replicate_succ]

/-- **Failing puts are spent one by one.** Where no failure was planned before, puts are to fail by
any number of plans, and then others are asked for. Each of these fails and spends one unit of one
plan that covers its path, or none is left for the path and it is answered as by storage. What is
left at the end is what storage still keeps. So the puts that fail and the units that are left are
as many as were planned. And if all puts are on one path, the first ones fail, as many as were
planned for it. -/
theorem failures_are_spent (hs : s.IsReliable) (b : Budget) (puts : List Put) :
    ∃ answers u left, s.run (b.steps ++ puts.map fun p => .request p.request) = (answers, u) ∧
      answers.map (·.1) = puts.map Put.request ∧ Serves b s.objects answers left u.objects ∧
      u.failingPuts = left.failing ∧
      answers.countP Answered.isPlanned + left.total = b.total ∧
      ∀ path, (∀ p ∈ puts, p.path = path) →
        answers.map Answered.isPlanned =
          List.replicate (min puts.length (b.units path)) true ++
            List.replicate (puts.length - b.units path) false := by
  obtain ⟨hpaths, hputs⟩ := hs
  rw [run_steps, hputs, List.nil_append]
  obtain ⟨left, hserves, hleft, hrequests⟩ :=
    exists_serves (s := { s with failingPuts := b.failing }) hpaths rfl puts
  refine ⟨_, _, left, rfl, hrequests, hserves, hleft, hserves.total_eq, fun path hpath => ?_⟩
  have hlength := congrArg List.length hrequests
  rw [List.length_map, List.length_map] at hlength
  rw [← hlength]
  refine hserves.map_isPlanned fun x hx => ?_
  obtain ⟨p, hp, hx⟩ := List.mem_map.1 (hrequests ▸ List.mem_map_of_mem hx)
  rw [← hx]
  exact hpath p hp

/-- Two plans cover a path, and one that was used up from the beginning. Of three puts there the
first two fail. -/
theorem failures_are_spent_of_overlap :
    ∃ (s u : Traced) (b : Budget) (puts : List Put) (answers : List Answered), s.IsReliable ∧
      b = [("a/", 1), ("b", 5), ("a/x", 0), ("a", 1)] ∧
      s.run (b.steps ++ puts.map fun p => .request p.request) = (answers, u) ∧
      answers.map Answered.isPlanned = [true, true, false] := by
  have hs : Traced.empty.IsReliable := ⟨rfl, rfl⟩
  let put : Put := ⟨"a/x", [], .absent⟩
  let b : Budget := [("a/", 1), ("b", 5), ("a/x", 0), ("a", 1)]
  obtain ⟨answers, u, -, hrun, -, -, -, -, hpath⟩ := failures_are_spent hs b [put, put, put]
  have hput : ∀ p ∈ [put, put, put], p.path = "a/x" := by
    simp [put]
  have hunits : b.units "a/x" = 2 := by decide
  have hplanned := hpath "a/x" hput
  rw [hunits] at hplanned
  exact ⟨_, u, b, _, answers, hs, rfl, hrun, hplanned⟩

end Budget
end Simulation
end CommitTimeline
