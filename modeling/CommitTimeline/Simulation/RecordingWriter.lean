/-
# A writer that keeps a record

`RecordingWriter` writes no files: it records what it was asked for, puts each
partition of a batch into a file group of its own, and fails as often as it was
told to. `ScriptedWriter` first gives the answers that were laid down for it, and
then those of a recording writer.
-/

import CommitTimeline.Batch
import CommitTimeline.Error

namespace CommitTimeline
namespace Simulation

/-- A writer that records the calls that succeed. -/
structure RecordingWriter where
  ingests : List (Timestamp × Nat)
  merges : List (Timestamp × Plan)
  failingIngests : Nat
  failingMerges : Nat

namespace RecordingWriter

/-- A writer that has recorded nothing and does not fail. -/
def fresh : RecordingWriter := ⟨[], [], 0, 0⟩

/-- The file group of a partition. -/
def fileGroup (partition : String) : FileGroup :=
  "fg-" ++ String.ofList (partition.toList.map fun c => if c = '/' then '-' else c)

/-- Writes the records of a delta commit. -/
def ingest (w : RecordingWriter) (timestamp : Timestamp) (batch : Batch) :
    Except Error CommitMetadata × RecordingWriter :=
  match w.failingIngests with
  | n + 1 =>
    (.error (.execution s!"injected ingest failure for {timestamp.text}" []),
      { w with failingIngests := n })
  | 0 =>
    (.ok ⟨sortedSet (batch.records.map fun r => fileGroup r.partition), batch.size.toUInt64⟩,
      { w with ingests := w.ingests ++ [(timestamp, batch.size)] })

/-- Merges what a plan says. -/
def merge (w : RecordingWriter) (timestamp : Timestamp) (plan : Plan) :
    Except Error Unit × RecordingWriter :=
  match w.failingMerges with
  | n + 1 =>
    (.error (.execution s!"injected merge failure for {timestamp.text}" []),
      { w with failingMerges := n })
  | 0 => (.ok (), { w with merges := w.merges ++ [(timestamp, plan)] })

end RecordingWriter

/-- A recording writer behind answers laid down in advance. -/
structure ScriptedWriter where
  ingestScript : List (Except Error CommitMetadata)
  mergeScript : List (Except Error Unit)
  recorder : RecordingWriter

namespace ScriptedWriter

/-- A writer without a script. -/
def fresh : ScriptedWriter := ⟨[], [], .fresh⟩

/-- Writes the records of a delta commit. -/
def ingest (w : ScriptedWriter) (timestamp : Timestamp) (batch : Batch) :
    Except Error CommitMetadata × ScriptedWriter :=
  match w.ingestScript with
  | x :: script => (x, { w with ingestScript := script })
  | [] =>
    let (x, recorder) := w.recorder.ingest timestamp batch
    (x, { w with recorder })

/-- Merges what a plan says. -/
def merge (w : ScriptedWriter) (timestamp : Timestamp) (plan : Plan) :
    Except Error Unit × ScriptedWriter :=
  match w.mergeScript with
  | x :: script => (x, { w with mergeScript := script })
  | [] =>
    let (x, recorder) := w.recorder.merge timestamp plan
    (x, { w with recorder })

end ScriptedWriter
end Simulation
end CommitTimeline
