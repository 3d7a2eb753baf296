/-
# Markers

A marker is what is stored of an instant: the instant itself, its details (the
plan of a compaction, what is known of a delta commit, or nothing) and, if the
writer gave it, the time at which the instant was requested.
-/

import CommitTimeline.Batch
import CommitTimeline.Instant

namespace CommitTimeline

/-- What is stored along with an instant. -/
inductive Details where
  | empty
  /-- The plan of a compaction; it stays when the compaction has completed. -/
  | plan (p : Plan)
  /-- What is known of a completed delta commit. -/
  | metadata (m : CommitMetadata)
  deriving DecidableEq

namespace Details

/-- The plan, if there is one. -/
def plan? : Details → Option Plan
  | .plan p => some p
  | _ => none

/-- The metadata, if there is any. -/
def metadata? : Details → Option CommitMetadata
  | .metadata m => some m
  | _ => none

end Details

/-- What is stored of an instant. -/
structure Marker where
  instant : Instant
  details : Details
  requestedAt : Option Moment
  deriving DecidableEq

namespace Marker

/-- The timestamp of the instant. -/
def timestamp (m : Marker) : Timestamp :=
  m.instant.timestamp

end Marker
end CommitTimeline
