/-
# Checks of a timeline

Checks that give the complaint to be raised, or nothing. A complaint without words
of its own has no text.
-/

import CommitTimeline.Simulation.Traced
import CommitTimeline.Timeline

namespace CommitTimeline
namespace Simulation

/-- What a check has found. -/
structure Complaint where
  text : Option String
  deriving DecidableEq, Repr

/-- The first pair of neighbours that does not rise. -/
def unorderedPair? : List Instant → Option (Instant × Instant)
  | a :: b :: rest =>
    if a.timestamp < b.timestamp then unorderedPair? (b :: rest) else some (a, b)
  | _ => none

/-- The timestamps rise strictly. -/
def checkIncreasing (t : Timeline) : Option Complaint :=
  (unorderedPair? t.instants).map fun (a, b) =>
    ⟨some s!"Timestamps not strictly increasing: {a.display} then {b.display}"⟩

/-- At most one compaction is outstanding. -/
def checkSinglePending (t : Timeline) : Option Complaint :=
  let pending := t.count .pendingCompaction
  if pending ≤ 1 then none
  else some ⟨some s!"Expected at most one outstanding compaction, found {pending}"⟩

/-- The last instant has this action and this state. -/
def checkLast (t : Timeline) (action : Action) (state : State) : Option Complaint :=
  match t.last? .all with
  | none => some ⟨some "timeline is empty"⟩
  | some last => if last.action = action ∧ last.state = state then none else some ⟨none⟩

/-- Every recorded put has a condition. -/
def checkConditionalPuts (operations : List Operation) : Option Complaint :=
  if operations.all fun
      | .put _ _ condition => condition ≠ .anything
      | _ => true
  then none else some ⟨none⟩

end Simulation
end CommitTimeline
