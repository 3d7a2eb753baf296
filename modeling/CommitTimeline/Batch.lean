/-
# Records, batches and what is known of a delta commit

A delta commit writes a batch of records; the writer answers with the file
groups that it touched. A compaction follows a plan: the delta commits whose logs
it merges and the file groups that these have touched, sorted and without
repetition.
-/

import CommitTimeline.Timestamp
import CommitTimeline.Text.Utf8

namespace CommitTimeline

/-- The name of a base file together with its delta logs. -/
abbrev FileGroup := String

/-- One record to be written. -/
structure Record where
  key : String
  partition : String
  payload : Bytes
  deriving DecidableEq

/-- The records of one delta commit, in order. -/
structure Batch where
  records : List Record
  deriving DecidableEq

/-- What the writer reports of a delta commit. -/
structure CommitMetadata where
  fileGroups : List FileGroup
  recordsWritten : UInt64
  deriving DecidableEq

/-- What a compaction merges. -/
structure Plan where
  deltaCommits : List Timestamp
  fileGroups : List FileGroup
  deriving DecidableEq

/-- Puts a name into a list sorted without repetition. -/
def insertSorted (x : String) : List String → List String
  | [] => [x]
  | y :: ys => if x < y then x :: y :: ys else if x = y then y :: ys else y :: insertSorted x ys

/-- The names of a list, sorted and without repetition. -/
def sortedSet (xs : List String) : List String :=
  xs.foldr insertSorted []

namespace Batch

/-- The batch without records. -/
def empty : Batch := ⟨[]⟩

/-- The number of records. -/
def size (b : Batch) : Nat :=
  b.records.length

end Batch

namespace CommitMetadata

/-- A commit of which nothing is known. -/
def none : CommitMetadata := ⟨[], 0⟩

end CommitMetadata

namespace Plan

/-- The plan that merges nothing. -/
def empty : Plan := ⟨[], []⟩

/-- The plan that merges the given delta commits, in this order. -/
def ofDeltaCommits (commits : List (Timestamp × CommitMetadata)) : Plan :=
  { deltaCommits := commits.map (·.1)
    fileGroups := sortedSet (commits.flatMap (·.2.fileGroups)) }

/-- The plan touches no file group. -/
def isEmpty (p : Plan) : Bool :=
  p.fileGroups.isEmpty

end Plan
end CommitTimeline
