/-
# Calls

A session keeps a view of the timeline of its table. A call is a program that
reads and replaces this view and that may fail; what it did to the view before it
failed stays done.
-/

import CommitTimeline.Policy
import CommitTimeline.Storage.Table

namespace CommitTimeline

/-- A program that keeps a view and may fail. -/
abbrev Call := ExceptT Error (StateT Timeline Program)

namespace Call

/-- Does what a program does; an error of storage ends the call. -/
def storage {α : Type} (p : Program (Except StorageError α)) : Call α := do
  match ← (p : StateT Timeline Program _) with
  | .ok a => return a
  | .error e => throw (.storage e)

/-- The writer writes the records of a delta commit. -/
def ingest (timestamp : Timestamp) (batch : Batch) : Call (Except Error CommitMetadata) :=
  liftM (Program.request (.ingest timestamp batch))

/-- The writer merges what a plan says. -/
def merge (timestamp : Timestamp) (plan : Plan) : Call (Except Error Unit) :=
  liftM (Program.request (.merge timestamp plan))

/-- Writes a log record. -/
def log (notice : Notice) : Call Unit :=
  liftM (Program.request (.report (.log notice [])))

/-- Raises a counter, or adds a sample. -/
def count (metric : Metric) : Call Unit :=
  liftM (Program.request (.report (.count metric)))

/-- The view of the session. -/
def view : Call Timeline :=
  get

/-- The call, with its log records inside one more span. -/
def within {α : Type} (span : Span) (c : Call α) : Call α :=
  fun view => (c view).within span

/-- The program of a call that starts from a view: its outcome and the view it leaves. -/
def program {α : Type} (c : Call α) (view : Timeline) : Program (Except Error α × Timeline) :=
  c view

end Call
end CommitTimeline
