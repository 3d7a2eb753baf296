/-
# Delta commits

A delta commit is appended, goes in flight, has its records written, and completes
with what the writer reports. If writing fails it stays in flight. If compactions
run inline, a cycle follows before the call returns.
-/

import CommitTimeline.Compaction

namespace CommitTimeline

/-- What came of a delta commit. -/
structure DeltaCommit where
  instant : Instant
  metadata : CommitMetadata
  /-- What the inline cycle did. -/
  compaction : Outcome
  deriving DecidableEq

namespace DeltaCommit

/-- Writes a batch at a timestamp, from its request to its completion. -/
def writeDelta (table : Table) (timestamp : Timestamp) (batch : Batch) (now : Moment) :
    Call (Instant × CommitMetadata) := do
  let requested ← Session.append table (.requested timestamp .deltaCommit) .empty (some now)
  let inflight ← Session.transition table requested .inflight none
  match ← Call.ingest inflight.timestamp batch with
  | .error e =>
    Call.count (.executionFailures table.name .deltaCommit)
    Call.log (.ingestFailed e.message)
    throw (e.toExecution s!"ingest failed for delta commit {inflight.timestamp.text}")
  | .ok metadata =>
    let completed ← Session.transition table inflight .completed (some (.metadata metadata))
    Call.count (.deltaCommits table.name)
    Call.log (.committed batch.size metadata.fileGroups.length)
    return (completed, metadata)

/-- Writes a batch and, if compactions run inline, runs a cycle. -/
def commit (table : Table) (config : Config) (timestamp : Timestamp) (batch : Batch)
    (now : Moment) : Call DeltaCommit := do
  let (instant, metadata) ← Call.within (.timeline "delta_commit" table.name timestamp)
    (writeDelta table timestamp batch now)
  let compaction ← if config.isInline then Compaction.run table config now else pure .noAction
  return ⟨instant, metadata, compaction⟩

/-- Commits a batch at a timestamp that the caller names. -/
def createAt (table : Table) (config : Config) (timestamp : Timestamp) (batch : Batch)
    (now : Moment) : Call DeltaCommit := do
  Session.refresh table
  commit table config timestamp batch now

/-- Commits a batch at a new timestamp. -/
def start (table : Table) (config : Config) (batch : Batch) (now : Moment) :
    Call DeltaCommit := do
  Session.refresh table
  let timestamp := (← Call.view).newTimestamp now
  commit table config timestamp batch now

end DeltaCommit
end CommitTimeline
