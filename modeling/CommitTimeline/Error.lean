/-
# Errors

`StorageError` is what storage and table names can fail with, `Error` what a call
on a timeline can fail with. Each case is a cause; `message` gives its wording,
and `sources` the wording of the causes behind it.
-/

import CommitTimeline.Instant
import CommitTimeline.Text.Quoted

namespace CommitTimeline

/-- What is wrong with a table name. -/
inductive NameFault where
  | empty
  | foreignCharacter
  deriving DecidableEq, Repr

/-- What is wrong with a path. -/
inductive PathFault where
  | absolute
  | backslash
  | percent
  | control
  | traversal
  deriving DecidableEq, Repr

/-- The area that a storage error belongs to. -/
inductive StorageError.Kind where
  | invalidId
  | storage
  | serialization
  | notFound
  | invalidInput
  | internal
  deriving DecidableEq, Repr

/-- Why storage did not do what it was asked for. -/
inductive StorageError where
  | badTableName (name : String) (fault : NameFault)
  | badPath (path : String) (fault : PathFault)
  | missing (path : String)
  | lockPoisoned
  /-- A failure that was planned for every operation on a path. -/
  | plannedFailure (path : String)
  /-- A failure that was planned for a put on a path. -/
  | plannedPutFailure (path : String)
  /-- What storage of another make reports, with the cause behind it. -/
  | reported (kind : StorageError.Kind) (message : String) (source : Option String)
  deriving DecidableEq, Repr

namespace StorageError

/-- The area of an error. -/
def kind : StorageError → Kind
  | badTableName .. => .invalidId
  | badPath .. => .invalidInput
  | missing _ => .notFound
  | lockPoisoned => .internal
  | plannedFailure _ => .internal
  | plannedPutFailure _ => .storage
  | reported kind .. => kind

/-- What an error says beyond its area. -/
def detail : StorageError → String
  | badTableName _ .empty => "table name cannot be empty"
  | badTableName name .foreignCharacter =>
    s!"table name '{name}' contains invalid characters (allowed: a-z, 0-9, '-', '_')"
  | badPath path .absolute => s!"absolute paths not allowed: {path}"
  | badPath path .backslash => s!"backslashes not allowed in paths: {path}"
  | badPath path .percent => s!"percent-encoding not allowed in paths: {path}"
  | badPath path .control => s!"control characters not allowed in paths: {Text.quoted path}"
  | badPath path .traversal => s!"path traversal not allowed: {path}"
  | missing path => s!"object not found: {path}"
  | lockPoisoned => "lock poisoned"
  | plannedFailure path => s!"Injected failure for path: {path}"
  | plannedPutFailure path => s!"Injected put failure for path: {path}"
  | reported _ message _ => message

/-- The words that open the messages of an area. -/
def Kind.heading : Kind → String
  | .invalidId => "invalid identifier"
  | .storage => "storage error"
  | .serialization => "serialization error"
  | .notFound => "not found"
  | .invalidInput => "invalid input"
  | .internal => "internal error"

/-- The wording of an error. -/
def message (e : StorageError) : String :=
  e.kind.heading ++ ": " ++ e.detail

/-- The wording of the cause behind an error. -/
def sources : StorageError → List String
  | reported .storage _ (some source) => [source]
  | _ => []

end StorageError

/-- Why a call on a timeline did not do what it was asked for. -/
inductive Error where
  /-- An instant was appended that is not after the last one. -/
  | outOfOrder (timestamp last : Timestamp)
  /-- A step was asked for that the stored instant cannot take. -/
  | invalidTransition (timestamp : Timestamp) (action : Action) (expected actual : String)
  /-- There is no instant of this timestamp. -/
  | instantNotFound (timestamp : Timestamp)
  /-- A compaction was appended while another one has not completed. -/
  | compactionPending (pending : Timestamp) (state : State)
  | invalidTimestamp (text : String) (reason : String)
  | invalidConfig (reason : String)
  /-- The writer failed; `sources` are the causes behind it. -/
  | execution (reason : String) (sources : List String)
  /-- A marker could not be written or read. -/
  | serialization (reason : String)
  | storage (e : StorageError)
  deriving DecidableEq

namespace Error

/-- The wording of an error. -/
def message : Error → String
  | outOfOrder timestamp last =>
    s!"out of order instant {timestamp.text}: last appended instant is {last.text}"
  | invalidTransition timestamp action expected actual =>
    s!"invalid transition for {action.label} instant {timestamp.text}: " ++
      s!"expected {expected}, found {actual}"
  | instantNotFound timestamp => s!"instant not found: {timestamp.text}"
  | compactionPending pending state =>
    s!"compaction {pending.text} is still {state.label}; cannot schedule another"
  | invalidTimestamp text reason => s!"invalid instant time '{text}': {reason}"
  | invalidConfig reason => s!"invalid compaction config: {reason}"
  | execution reason _ => s!"execution failed: {reason}"
  | serialization reason => s!"serialization error: {reason}"
  | storage e => e.message

/-- The wordings of the causes behind an error, nearest first. -/
def sources : Error → List String
  | execution _ sources => sources
  | storage e => e.sources
  | _ => []

/-- The caller should refresh its view and decide again. -/
def isStaleView : Error → Bool
  | invalidTransition .. | compactionPending .. => true
  | _ => false

/-- The failure of a writer as an execution error; one that is already stays as it is. -/
def toExecution (e : Error) (reason : String) : Error :=
  match e with
  | execution .. => e
  | _ => execution reason (e.message :: e.sources)

end Error

namespace Timestamp

/-- The timestamp that a caller names by a text, or the error that tells what is
wrong with it. -/
def parse (s : String) : Except Error Timestamp :=
  match ofString s with
  | .ok t => .ok t
  | .error fault => .error (.invalidTimestamp s fault.message)

end Timestamp
end CommitTimeline
