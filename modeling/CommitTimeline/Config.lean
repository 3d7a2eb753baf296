/-
# When to compact

A configuration says how many delta commits, and how much time, may pass before a
compaction is due, and whether the writer of a delta commit runs it on the spot.
A valid configuration has no zero threshold.
-/

import CommitTimeline.Error
import CommitTimeline.Time.Duration

namespace CommitTimeline

/-- Thresholds of compaction. -/
structure Config where
  /-- Compactions run right after the delta commit that made them due. -/
  isInline : Bool
  /-- A compaction is due once this many delta commits have completed. -/
  maxDeltaCommits : UInt32
  /-- A compaction is due once this much time has passed. -/
  maxDeltaTime : Duration
  deriving DecidableEq

namespace Config

/-- No inline compaction; five delta commits; one hour. -/
def standard : Config :=
  ⟨false, 5, .ofSeconds 3600⟩

/-- No threshold is zero. -/
def IsValid (c : Config) : Prop :=
  c.maxDeltaCommits ≠ 0 ∧ c.maxDeltaTime.nanoseconds ≠ 0

instance (c : Config) : Decidable c.IsValid :=
  inferInstanceAs (Decidable (_ ∧ _))

/-- Refuses a zero threshold, the count before the time. -/
def validate (c : Config) : Except Error Unit :=
  if c.maxDeltaCommits = 0 then
    .error (.invalidConfig "maxNumDeltaCommitsBeforeCompaction must be at least 1")
  else if c.maxDeltaTime.nanoseconds = 0 then
    .error (.invalidConfig "maxDeltaSecondsBeforeCompaction must be at least 1")
  else .ok ()

end Config
end CommitTimeline
