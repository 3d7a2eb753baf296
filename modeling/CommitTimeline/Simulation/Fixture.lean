/-
# Records and batches to try things with
-/

import CommitTimeline.Batch

namespace CommitTimeline
namespace Simulation

/-- A record whose payload holds its key. -/
def record (key partition : String) : Record :=
  ⟨key, partition, Text.bytes ("\x7b\"key\":\"" ++ key ++ "\"\x7d")⟩

/-- A batch of some records in one partition. -/
def batch (count : Nat) (partition : String) : Batch :=
  ⟨(List.range count).map fun i => record s!"{partition}-{i}" partition⟩

/-- A batch with one record in each of some partitions. -/
def batchAcross (partitions : List String) : Batch :=
  ⟨partitions.zipIdx.map fun (p, i) => record s!"key-{i}" p⟩

end Simulation
end CommitTimeline
