/-
# When a compaction is due

`decide` looks at a timeline and at the time. A compaction is due when enough delta
commits have completed since the last compaction, or when enough time has passed
since it (or since the first instant), but never while one is outstanding. A time
is what the timestamp of the instant denotes, or else when it was requested.
-/

import CommitTimeline.Config
import CommitTimeline.Timeline

namespace CommitTimeline

/-- Why a compaction is due. -/
inductive Reason where
  | deltaCommits (count : Nat)
  | elapsedTime (elapsed : Duration)
  | both (count : Nat) (elapsed : Duration)
  deriving DecidableEq

/-- The name of a reason in metrics and logs. -/
def Reason.label : Reason → String
  | deltaCommits _ => "delta_commits"
  | elapsedTime _ => "elapsed_time"
  | both .. => "both"

namespace Timeline

/-- The moment of an instant: what its timestamp denotes, or when it was requested. -/
def moment? (t : Timeline) (timestamp : Timestamp) : Option Moment :=
  timestamp.moment?.or (t.requestedAt? timestamp)

/-- The instant that time is counted from. -/
def reference? (t : Timeline) : Option Instant :=
  t.lastCompaction?.or (t.first? .all)

/-- The time since the reference, unless it lies in the future or has no moment. -/
def elapsed? (t : Timeline) (now : Moment) : Option Duration := do
  let reference ← t.reference?
  let moment ← t.moment? reference.timestamp
  Duration.ofNanoseconds? (now.since moment)

/-- Why a compaction is due at a moment, if one is. -/
def decide (t : Timeline) (config : Config) (now : Moment) : Option Reason :=
  if t.pendingCompaction?.isSome then none
  else
    let count := t.openDeltaCommits.length
    let elapsed := (t.elapsed? now).filter fun e => config.maxDeltaTime ≤ e
    match config.maxDeltaCommits.toNat.ble count, elapsed with
    | true, some elapsed => some (.both count elapsed)
    | true, none => some (.deltaCommits count)
    | false, some elapsed => some (.elapsedTime elapsed)
    | false, none => none

end Timeline
end CommitTimeline
