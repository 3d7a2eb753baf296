/-
# Moments of UTC

A `Moment` is a second, counted from 1970-01-01T00:00:00Z without leap seconds,
and the nanoseconds into it. A leap second is written as a second billion of
nanoseconds of the second before it, and only the last second of a minute can be
followed by one. Moments lie in the years -262143 to 262142.

`Moment.since` and `Moment.later?` measure and move: a leap second counts as a
second of its own when the two times of day lie on different sides of it.
-/

import CommitTimeline.Time.Calendar
import CommitTimeline.Time.Duration

namespace CommitTimeline

/-- The first year of the calendar. -/
def firstYear : Int := -262143

/-- The last year of the calendar. -/
def lastYear : Int := 262142

/-- What a second and the nanoseconds into it must satisfy to be a moment: what `from_timestamp`
of chrono takes. Leap nanoseconds off the end of a minute, which only its `with_nanosecond` makes,
are left out. -/
def IsMoment (second : Int) (nano : Nat) : Prop :=
  -8334601228800 ≤ second ∧ second ≤ 8210266876799 ∧ nano < 2000000000 ∧
    (1000000000 ≤ nano → second % 60 = 59)

instance (second : Int) (nano : Nat) : Decidable (IsMoment second nano) :=
  inferInstanceAs (Decidable (_ ∧ _))

/-- The beginning of 1970 is a moment. -/
theorem isMoment_zero : IsMoment 0 0 := by
  decide

/-- A point in time, to the nanosecond, as it is made from a timestamp and read from a text or a
clock. One that was moved into a leap second off the end of a minute is none. -/
structure Moment where
  second : Int
  nano : Nat
  valid : IsMoment second nano
  deriving DecidableEq

/-- A moment as a calendar and a clock show it; `second` is 60 in a leap second. -/
structure Reading where
  date : Date
  hour : Nat
  minute : Nat
  second : Nat
  nano : Nat
  deriving DecidableEq, Repr

namespace Moment

/-- The moment with the given second and nanoseconds, if there is one. -/
def of? (second : Int) (nano : Nat) : Option Moment :=
  if h : IsMoment second nano then some ⟨second, nano, h⟩ else none

/-- The moment that lies `n` milliseconds after 1970-01-01T00:00:00Z. -/
def ofMilliseconds? (n : Int) : Option Moment :=
  of? (n / 1000) ((n % 1000).toNat * 1000000)

instance : LT Moment :=
  ⟨fun a b => a.second < b.second ∨ (a.second = b.second ∧ a.nano < b.nano)⟩

instance : LE Moment := ⟨fun a b => ¬b < a⟩

instance (a b : Moment) : Decidable (a < b) :=
  inferInstanceAs (Decidable (_ ∨ _))

instance (a b : Moment) : Decidable (a ≤ b) :=
  inferInstanceAs (Decidable (¬_))

/-- The moment lies in a leap second. -/
def IsLeap (m : Moment) : Prop :=
  1000000000 ≤ m.nano

instance (m : Moment) : Decidable m.IsLeap :=
  inferInstanceAs (Decidable (_ ≤ _))

/-- The second of the day, from 0 to 86399. -/
def secondOfDay (m : Moment) : Nat :=
  (m.second % 86400).toNat

/-- Nanoseconds from `b` to `a`. The leap second that one of them lies in counts
if the other one shows a later time of day. -/
def since (a b : Moment) : Int :=
  let leap : Int :=
    if b.secondOfDay < a.secondOfDay ∧ b.IsLeap then 1
    else if a.secondOfDay < b.secondOfDay ∧ a.IsLeap then -1
    else 0
  (a.second - b.second + leap) * 1000000000 + ((a.nano : Int) - b.nano)

/-- The moment that lies `ms` milliseconds after `m`. What does not leave a leap
second stays in it; what leaves it goes on as if from the second before. -/
def later? (m : Moment) (ms : Nat) : Option Moment :=
  let total := m.nano + ms * 1000000
  if m.IsLeap ∧ total < 2000000000 then of? m.second total
  else
    let nano := m.nano % 1000000000 + ms * 1000000
    of? (m.second + (nano / 1000000000 : Nat)) (nano % 1000000000)

/-- The date and time of day of a moment. -/
def reading (m : Moment) : Reading :=
  { date := Date.ofNumber (m.second / 86400)
    hour := m.secondOfDay / 3600
    minute := m.secondOfDay / 60 % 60
    second := m.secondOfDay % 60 + m.nano / 1000000000
    nano := m.nano % 1000000000 }

end Moment

namespace Reading

/-- The reading is one that a calendar and a clock can show. -/
def IsReal (r : Reading) : Prop :=
  firstYear ≤ r.date.year ∧ r.date.year ≤ lastYear ∧ r.date.IsReal ∧
    r.hour < 24 ∧ r.minute < 60 ∧ r.second ≤ 60 ∧ r.nano < 1000000000

instance (r : Reading) : Decidable r.IsReal :=
  inferInstanceAs (Decidable (_ ∧ _))

/-- The moment at which clocks `offset` seconds ahead of UTC show this reading. -/
def moment? (r : Reading) (offset : Int) : Option Moment :=
  if r.IsReal then
    let leap := if r.second = 60 then 1 else 0
    Moment.of?
      (r.date.number * 86400 + (r.hour * 3600 + r.minute * 60 + r.second : Nat) - leap - offset)
      (r.nano + leap.toNat * 1000000000)
  else none

end Reading
end CommitTimeline
