/-
# Filters

A filter selects instants by their action and by their state. A selector that is
absent selects all, one that is present only what it lists.
-/

import CommitTimeline.Instant

namespace CommitTimeline

/-- Selects instants by action and state. -/
structure Filter where
  actions : Option (List Action)
  states : Option (List State)
  deriving DecidableEq, Repr

namespace Filter

/-- Every instant. -/
def all : Filter :=
  ⟨none, none⟩

/-- Only instants of the given actions. -/
def withActions (f : Filter) (actions : List Action) : Filter :=
  { f with actions := some actions }

/-- Only instants in the given states. -/
def withStates (f : Filter) (states : List State) : Filter :=
  { f with states := some states }

/-- Only completed instants. -/
def completed (f : Filter) : Filter :=
  f.withStates [.completed]

/-- Delta commits, compactions and commits in any state. -/
def commitsAndCompaction : Filter :=
  all.withActions [.deltaCommit, .compaction, .commit]

/-- Delta commits in any state. -/
def deltaCommits : Filter :=
  all.withActions [.deltaCommit]

/-- Commits in any state. -/
def commits : Filter :=
  all.withActions [.commit]

/-- Compactions that have not completed. -/
def pendingCompaction : Filter :=
  (all.withActions [.compaction]).withStates [.requested, .inflight]

/-- The filter selects the instant. -/
def selects (f : Filter) (i : Instant) : Bool :=
  (match f.actions with
    | some actions => actions.contains i.action
    | none => true) &&
  (match f.states with
    | some states => states.contains i.state
    | none => true)

end Filter
end CommitTimeline
