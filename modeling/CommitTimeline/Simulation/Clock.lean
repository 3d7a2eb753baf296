/-
# A clock that is moved by hand

The clock counts milliseconds from a base, in 64 bits. It moves forward by a
duration, or to a moment that is not before the one it shows.
-/

import CommitTimeline.Time.Rfc3339

namespace CommitTimeline
namespace Simulation

/-- A clock that is moved by hand. -/
structure Clock where
  base : Moment
  /-- Milliseconds since the base. -/
  passed : UInt64
  deriving DecidableEq

/-- Why a clock cannot be moved. -/
inductive ClockFault where
  /-- The duration has more milliseconds than the clock can count. -/
  | tooLong
  /-- The leap second that the base lies in makes the time to the target negative. -/
  | negative
  | beforeBase (base target : Moment)
  | backwards (current target : Nat)
  deriving DecidableEq

/-- The wording of a fault, if it has one. -/
def ClockFault.message? : ClockFault → Option String
  | tooLong | negative => none
  | beforeBase base target =>
    some ("Cannot move clock before base: base=" ++ String.ofList (Rfc3339.write base) ++
      ", target=" ++ String.ofList (Rfc3339.write target))
  | backwards current target =>
    some s!"Cannot move clock backwards: current={current}ms, target={target}ms"

namespace Clock

/-- A clock that shows its base. -/
def start (base : Moment) : Clock := ⟨base, 0⟩

/-- The first second of the year 2024. -/
def standardBase : Moment := ⟨1704067200, 0, by decide⟩

/-- The moment that the clock shows, if the calendar reaches that far. -/
def now? (c : Clock) : Option Moment :=
  if c.passed.toNat < UInt64.size / 2 then c.base.later? c.passed.toNat else none

/-- The time since the base. -/
def elapsed (c : Clock) : Duration where
  nanoseconds := c.passed.toNat * 1000000
  bounded := by have := c.passed.toNat_lt_size; omega

/-- Moves the clock forward; beyond 64 bits it starts again from the base. -/
def advance (c : Clock) (d : Duration) : Except ClockFault Clock :=
  if d.milliseconds < UInt64.size then .ok { c with passed := c.passed + d.milliseconds.toUInt64 }
  else .error .tooLong

/-- Moves the clock to a moment. -/
def advanceTo (c : Clock) (target : Moment) : Except ClockFault Clock :=
  if target < c.base then .error (.beforeBase c.base target)
  else
    let ms := (target.since c.base).tdiv 1000000
    if ms < 0 then .error .negative
    else if ms.toNat < c.passed.toNat then .error (.backwards c.passed.toNat ms.toNat)
    else .ok { c with passed := ms.toNat.toUInt64 }

end Clock
end Simulation
end CommitTimeline
