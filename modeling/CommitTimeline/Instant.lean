/-
# Instants

An instant is one point of a timeline: a timestamp, the action taken there and
how far it has come. An action is requested, then in flight, then completed, one
step at a time; a compaction that completes is recorded as a commit.
-/

import CommitTimeline.Timestamp

namespace CommitTimeline

/-- What is done at an instant. -/
inductive Action where
  /-- Records are written into delta logs. -/
  | deltaCommit
  /-- Delta logs are merged into base files. -/
  | compaction
  /-- A compaction that has completed. -/
  | commit
  deriving DecidableEq, Repr

/-- How far the action of an instant has come. -/
inductive State where
  /-- Decided, not yet started. -/
  | requested
  /-- Started, perhaps abandoned since. -/
  | inflight
  /-- Finished. -/
  | completed
  deriving DecidableEq, Repr

namespace Action

/-- The name of an action in messages, metrics and logs. -/
def label : Action → String
  | .deltaCommit => "deltacommit"
  | .compaction => "compaction"
  | .commit => "commit"

/-- The name of an action in stored markers. -/
def name : Action → String
  | .deltaCommit => "delta_commit"
  | .compaction => "compaction"
  | .commit => "commit"

/-- The action of a name. -/
def ofName? (s : String) : Option Action :=
  [deltaCommit, compaction, commit].find? fun a => a.name = s

/-- The action under which an instant is recorded once it has completed. -/
def completed : Action → Action
  | .deltaCommit => .deltaCommit
  | .compaction => .commit
  | .commit => .commit

end Action

namespace State

/-- The name of a state, in messages and in stored markers. -/
def label : State → String
  | .requested => "requested"
  | .inflight => "inflight"
  | .completed => "completed"

/-- The state of a name. -/
def ofLabel? (s : String) : Option State :=
  [requested, inflight, completed].find? fun a => a.label = s

/-- The one state that can follow. -/
def next? : State → Option State
  | .requested => some .inflight
  | .inflight => some .completed
  | .completed => none

/-- The state can be followed by `target`. -/
def Leads (s target : State) : Prop :=
  s.next? = some target

instance (s target : State) : Decidable (s.Leads target) :=
  inferInstanceAs (Decidable (_ = _))

/-- The action is still to be finished. -/
def isPending : State → Bool
  | .completed => false
  | _ => true

end State

/-- One point of a timeline. -/
structure Instant where
  timestamp : Timestamp
  action : Action
  state : State
  deriving DecidableEq

namespace Instant

/-- An instant whose action has been decided and not yet started. -/
def requested (timestamp : Timestamp) (action : Action) : Instant :=
  ⟨timestamp, action, .requested⟩

/-- The action has finished. -/
def isCompleted (i : Instant) : Bool :=
  i.state = .completed

/-- The instant after its action has come to `state`. -/
def moved (i : Instant) (state : State) : Instant :=
  { i with
    action := if state = .completed then i.action.completed else i.action
    state := state }

/-- The instant in messages and logs: `[001__compaction__requested]`. -/
def display (i : Instant) : String :=
  s!"[{i.timestamp.text}__{i.action.label}__{i.state.label}]"

end Instant
end CommitTimeline
