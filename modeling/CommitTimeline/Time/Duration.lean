/-
# Durations

A stretch of time without a sign, to the nanosecond. Its whole seconds fit in 64
bits.
-/

namespace CommitTimeline

/-- A stretch of time, in nanoseconds. -/
structure Duration where
  nanoseconds : Nat
  bounded : nanoseconds < UInt64.size * 1000000000
  deriving DecidableEq

namespace Duration

/-- The duration of `n` nanoseconds, if that is not negative and not too long. -/
def ofNanoseconds? (n : Int) : Option Duration :=
  if h : n.toNat < UInt64.size * 1000000000 then if 0 ≤ n then some ⟨n.toNat, h⟩ else none else none

/-- The duration of some seconds and nanoseconds, if it is not too long. -/
def of? (seconds nanoseconds : Nat) : Option Duration :=
  ofNanoseconds? (seconds * 1000000000 + nanoseconds : Nat)

/-- The duration of a number of whole seconds. -/
def ofSeconds (seconds : UInt64) : Duration where
  nanoseconds := seconds.toNat * 1000000000
  bounded := by have := seconds.toNat_lt_size; omega

/-- The whole seconds of a duration. -/
def seconds (d : Duration) : Nat :=
  d.nanoseconds / 1000000000

/-- The nanoseconds of a duration beyond its whole seconds. -/
def subsecond (d : Duration) : Nat :=
  d.nanoseconds % 1000000000

/-- The whole milliseconds of a duration. -/
def milliseconds (d : Duration) : Nat :=
  d.nanoseconds / 1000000

instance : LE Duration := ⟨fun a b => a.nanoseconds ≤ b.nanoseconds⟩

instance (a b : Duration) : Decidable (a ≤ b) :=
  inferInstanceAs (Decidable (a.nanoseconds ≤ b.nanoseconds))

end Duration
end CommitTimeline
