/-
# Log records and metrics

What a call reports besides its result. A `Notice` is a log record with its level,
message and fields; it stands in the spans of the operations under way. A
`Metric` names a counter or a histogram with its labels.
-/

import CommitTimeline.Instant

namespace CommitTimeline

/-- The level of a log record. -/
inductive Level where
  | debug
  | info
  | warn
  deriving DecidableEq, Repr

/-- The value of a field. -/
inductive FieldValue where
  | text (s : String)
  | number (n : Nat)
  | flag (b : Bool)
  deriving DecidableEq, Repr

/-- An operation under way, as log records show it. -/
inductive Span where
  /-- Work on one instant. -/
  | timeline (operation table : String) (instant : Timestamp)
  /-- One cycle of compaction. -/
  | compaction (table : String) (isInline : Bool)
  deriving DecidableEq

namespace Span

/-- The name of a span. -/
def name : Span → String
  | timeline .. => "timeline"
  | compaction .. => "compaction"

/-- The fields of a span. -/
def fields : Span → List (String × FieldValue)
  | timeline operation table instant =>
    [("op", .text operation), ("table", .text table), ("instant", .text instant.text)]
  | compaction table isInline => [("table", .text table), ("inline", .flag isInline)]

end Span

/-- How a compaction came to be executed. -/
inductive Mode where
  /-- By the cycle that scheduled it. -/
  | new
  /-- By a later cycle. -/
  | retry
  deriving DecidableEq, Repr

/-- The name of a mode. -/
def Mode.label : Mode → String
  | .new => "new"
  | .retry => "retry"

/-- A log record. -/
inductive Notice where
  | refreshed (table : String) (instants : Nat)
  | appended (table : String) (instant : Instant)
  | transitioned (table : String) (before after : Instant)
  | raceLost (table : String) (instant actual : Instant)
  | nothingDue
  | adopting (table : String) (instant : Instant)
  | scheduled (table : String) (instant : Instant) (reason : String)
    (deltaCommits fileGroups : Nat)
  | mergeFailed (reason : String)
  | compacted (instant : Instant) (mode : Mode) (fileGroups : Nat)
  | ingestFailed (reason : String)
  | committed (records fileGroups : Nat)
  deriving DecidableEq

namespace Notice

/-- The level of a log record. -/
def level : Notice → Level
  | refreshed .. | appended .. | transitioned .. | nothingDue => .debug
  | scheduled .. | compacted .. | committed .. => .info
  | raceLost .. | adopting .. | mergeFailed _ | ingestFailed _ => .warn

/-- The message of a log record. -/
def message : Notice → String
  | refreshed .. => "refreshed timeline"
  | appended .. => "appended instant"
  | transitioned .. => "transitioned instant"
  | raceLost .. => "lost transition race; refresh required"
  | nothingDue => "no compaction needed"
  | adopting .. => "adopting outstanding compaction"
  | scheduled .. => "scheduled compaction"
  | mergeFailed _ => "merge failed; compaction left inflight"
  | compacted .. => "compaction completed"
  | ingestFailed _ => "ingest failed; delta commit left inflight"
  | committed .. => "delta commit completed"

/-- The fields of a log record. -/
def fields : Notice → List (String × FieldValue)
  | refreshed table instants => [("table", .text table), ("instants", .number instants)]
  | appended table instant => [("table", .text table), ("instant", .text instant.display)]
  | transitioned table before after =>
    [("table", .text table), ("from", .text before.display), ("to", .text after.display)]
  | raceLost table instant actual =>
    [("table", .text table), ("instant", .text instant.display), ("actual", .text actual.display)]
  | nothingDue => []
  | adopting table instant => [("table", .text table), ("instant", .text instant.display)]
  | scheduled table instant reason deltaCommits fileGroups =>
    [("table", .text table), ("instant", .text instant.display), ("reason", .text reason),
      ("delta_commits", .number deltaCommits), ("file_groups", .number fileGroups)]
  | mergeFailed reason => [("error", .text reason)]
  | compacted instant mode fileGroups =>
    [("instant", .text instant.display), ("mode", .text mode.label),
      ("file_groups", .number fileGroups)]
  | ingestFailed reason => [("error", .text reason)]
  | committed records fileGroups =>
    [("records", .number records), ("file_groups", .number fileGroups)]

end Notice

/-- A counter to be raised by one, or a histogram to take a sample. -/
inductive Metric where
  | deltaCommits (table : String)
  | compactionsScheduled (table : String) (reason : String)
  | compactionsCompleted (table : String) (mode : Mode)
  | compactionDuration (table : String) (mode : Mode)
  | compactionRetries (table : String) (state : State)
  | transitionConflicts (table : String) (action : Action)
  | executionFailures (table : String) (action : Action)
  deriving DecidableEq

namespace Metric

/-- The name of a metric. -/
def name : Metric → String
  | deltaCommits _ => "mantle_delta_commits_total"
  | compactionsScheduled .. => "mantle_compactions_scheduled_total"
  | compactionsCompleted .. => "mantle_compactions_completed_total"
  | compactionDuration .. => "mantle_compaction_duration_seconds"
  | compactionRetries .. => "mantle_compaction_retries_total"
  | transitionConflicts .. => "mantle_timeline_transition_conflicts_total"
  | executionFailures .. => "mantle_execution_failures_total"

/-- The labels of a metric, in the order of their names. -/
def labels : Metric → List (String × String)
  | deltaCommits table => [("table", table)]
  | compactionsScheduled table reason => [("reason", reason), ("table", table)]
  | compactionsCompleted table mode => [("mode", mode.label), ("table", table)]
  | compactionDuration table mode => [("mode", mode.label), ("table", table)]
  | compactionRetries table state => [("state", state.label), ("table", table)]
  | transitionConflicts table action => [("action", action.label), ("table", table)]
  | executionFailures table action => [("action", action.label), ("table", table)]

/-- A metric with its labels: `name{label=value,...}`. -/
def display (m : Metric) : String :=
  m.name ++ "\x7b" ++ ",".intercalate (m.labels.map fun (k, v) => k ++ "=" ++ v) ++ "\x7d"

/-- The kind and the description of every metric. -/
def descriptions : List (String × String) :=
  let counter (m : Metric) (description : String) := (m.name, "counter: " ++ description)
  let histogram (m : Metric) (description : String) := (m.name, "histogram: " ++ description)
  [counter (.deltaCommits "") "Total completed delta commits",
    counter (.compactionsScheduled "" "") "Total compactions scheduled",
    counter (.compactionsCompleted "" .new) "Total compactions completed",
    counter (.compactionRetries "" .requested) "Total outstanding compactions adopted for retry",
    histogram (.compactionDuration "" .new) "Duration of compaction merges in seconds",
    counter (.transitionConflicts "" .commit) "Total rejected stale transitions",
    counter (.executionFailures "" .commit) "Total ingest/merge failures"]

end Metric

/-- What a call reports. -/
inductive Event where
  /-- A log record, with the spans it stands in from the outermost. -/
  | log (notice : Notice) (spans : List Span)
  | count (metric : Metric)
  deriving DecidableEq

/-- The event inside one more span. -/
def Event.within (span : Span) : Event → Event
  | .log notice spans => .log notice (span :: spans)
  | .count metric => .count metric

end CommitTimeline
