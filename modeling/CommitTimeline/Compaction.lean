/-
# Compactions

One cycle (`run`) refreshes the view. If a compaction is outstanding, the earliest
one is adopted and driven to its end, and nothing else happens. Otherwise, if a
compaction is due, it is scheduled: an instant is appended with the plan of what
it merges. If compactions run inline, it is executed at once: it goes in flight,
the writer merges, and it completes as a commit. A merge that fails leaves it in
flight, to be adopted by a later cycle under its timestamp.
-/

import CommitTimeline.Session

namespace CommitTimeline

/-- What a cycle did. -/
inductive Outcome where
  | noAction
  /-- An outstanding compaction was adopted and completed. -/
  | retried (instant : Instant)
  /-- A new compaction was scheduled and completed. -/
  | executed (instant : Instant)
  /-- A new compaction was scheduled, for others to execute. -/
  | scheduled (instant : Instant)
  deriving DecidableEq

namespace Outcome

/-- The compaction that was touched. -/
def instant? : Outcome → Option Instant
  | noAction => none
  | retried i | executed i | scheduled i => some i

/-- The name of an outcome. -/
def label : Outcome → String
  | noAction => "no_action"
  | retried _ => "retried"
  | executed _ => "executed"
  | scheduled _ => "scheduled"

end Outcome

namespace Timeline

/-- What is known of a completed delta commit. -/
def metadata (t : Timeline) (timestamp : Timestamp) : CommitMetadata :=
  ((t.details? timestamp).bind (·.metadata?)).getD .none

/-- The plan of a compaction that merges every delta commit since the last one. -/
def nextPlan (t : Timeline) : Plan :=
  Plan.ofDeltaCommits (t.openDeltaCommits.map fun i => (i.timestamp, t.metadata i.timestamp))

/-- The plan recorded at a timestamp; without one there is nothing to merge. -/
def planAt (t : Timeline) (timestamp : Timestamp) : Plan :=
  ((t.details? timestamp).bind (·.plan?)).getD .empty

end Timeline

namespace Compaction

/-- Appends a compaction with the plan that a timeline calls for. -/
def schedule (table : Table) (timeline : Timeline) (timestamp : Timestamp) (reason : Reason)
    (now : Moment) : Call Instant := do
  let plan := timeline.nextPlan
  let requested ← Session.append table (.requested timestamp .compaction) (.plan plan) (some now)
  Call.log (.scheduled table.name requested reason.label plan.deltaCommits.length
    plan.fileGroups.length)
  Call.count (.compactionsScheduled table.name reason.label)
  return requested

/-- Puts a requested compaction in flight; one that is in flight already stays so. -/
def start (table : Table) (compaction : Instant) : Call Instant :=
  match compaction.state with
  | .requested => Session.transition table compaction .inflight none
  | _ => return compaction

/-- Executes a compaction that has not completed. -/
def execute (table : Table) (compaction : Instant) (mode : Mode) : Call Instant :=
  Call.within (.timeline "compaction" table.name compaction.timestamp) do
    let inflight ← start table compaction
    let plan := (← Call.view).planAt inflight.timestamp
    match ← Call.merge inflight.timestamp plan with
    | .error e =>
      Call.count (.executionFailures table.name .compaction)
      Call.log (.mergeFailed e.message)
      throw (e.toExecution s!"merge failed for compaction {inflight.timestamp.text}")
    | .ok () =>
      let completed ← Session.transition table inflight .completed none
      Call.count (.compactionsCompleted table.name mode)
      Call.count (.compactionDuration table.name mode)
      Call.log (.compacted completed mode plan.fileGroups.length)
      return completed

/-- Adopts and completes the outstanding compaction of the view, if there is one. -/
def completePending (table : Table) : Call (Option Instant) := do
  match (← Call.view).pendingCompaction? with
  | none => return none
  | some pending =>
    Call.log (.adopting table.name pending)
    Call.count (.compactionRetries table.name pending.state)
    let completed ← execute table pending .retry
    return some completed

/-- One cycle. -/
def cycle (table : Table) (config : Config) (now : Moment) : Call Outcome := do
  Session.refresh table
  match ← completePending table with
  | some completed => return .retried completed
  | none =>
    let timeline ← Call.view
    match timeline.decide config now with
    | none =>
      Call.log .nothingDue
      return .noAction
    | some reason =>
      let requested ← schedule table timeline (timeline.newTimestamp now) reason now
      if config.isInline then
        let completed ← execute table requested .new
        return .executed completed
      else return .scheduled requested

/-- One cycle, inside its span. -/
def run (table : Table) (config : Config) (now : Moment) : Call Outcome :=
  Call.within (.compaction table.name config.isInline) (cycle table config now)

/-- Adopts and completes the outstanding compaction, if there is one. -/
def retryPending (table : Table) : Call (Option Instant) := do
  Session.refresh table
  completePending table

/-- Schedules a compaction at a timestamp, if one is due; refuses while one is
outstanding. -/
def scheduleAt (table : Table) (config : Config) (timestamp : Timestamp) (now : Moment) :
    Call (Option Instant) := do
  Session.refresh table
  let timeline ← Call.view
  match timeline.pendingCompaction? with
  | some pending => throw (.compactionPending pending.timestamp pending.state)
  | none =>
    match timeline.decide config now with
    | none => return none
    | some reason =>
      let requested ← schedule table timeline timestamp reason now
      return some requested

end Compaction
end CommitTimeline
