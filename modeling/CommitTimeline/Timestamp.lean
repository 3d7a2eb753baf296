/-
# Timestamps of instants

A timestamp names an instant of a timeline and orders it: timestamps compare as
texts. One that is made from a moment has 17 digits, `yyyyMMddHHmmssSSS` (with
leap second 60), so that text order is time order; one that a caller supplies is
any nonempty text of ASCII letters and digits, and may carry no time at all.

`ofMoment` and `moment?` pass between timestamps and moments; `successor` is the
next timestamp in text order.
-/

import CommitTimeline.Time.Rfc3339

namespace CommitTimeline

/-- The name of an instant, and its place in the order. -/
structure Timestamp where
  text : String
  deriving DecidableEq

namespace Timestamp

instance : LT Timestamp := ⟨fun a b => a.text < b.text⟩

instance : LE Timestamp := ⟨fun a b => a.text ≤ b.text⟩

instance (a b : Timestamp) : Decidable (a < b) :=
  inferInstanceAs (Decidable (a.text < b.text))

instance (a b : Timestamp) : Decidable (a ≤ b) :=
  inferInstanceAs (Decidable (a.text ≤ b.text))

/-- Why a text is no timestamp. -/
inductive Fault where
  | empty
  | foreignCharacter
  deriving DecidableEq, Repr

/-- The wording of a fault. -/
def Fault.message : Fault → String
  | .empty => "must not be empty"
  | .foreignCharacter => "must be ASCII alphanumeric"

/-- A caller may name a timestamp by this text. -/
def IsValid (t : Timestamp) : Prop :=
  t.text ≠ "" ∧ t.text.toList.all Char.isAlphanum = true

instance (t : Timestamp) : Decidable t.IsValid :=
  inferInstanceAs (Decidable (_ ∧ _))

/-- The timestamp that a caller names by a text. -/
def ofString (s : String) : Except Fault Timestamp :=
  if s = "" then .error .empty
  else if s.toList.all Char.isAlphanum then .ok ⟨s⟩
  else .error .foreignCharacter

/-- The timestamp of a moment, to the millisecond. A year outside 0 to 9999 brings
its sign along. -/
def ofMoment (m : Moment) : Timestamp :=
  let r := m.reading
  ⟨String.ofList <| yearText r.date.year ++ Text.fixed 2 r.date.month ++ Text.fixed 2 r.date.day ++
    Text.fixed 2 r.hour ++ Text.fixed 2 r.minute ++ Text.fixed 2 r.second ++
    Text.fixed 3 (r.nano / 1000000)⟩

/-- The moment that a timestamp of 17 digits denotes, or one of 14 digits without
the milliseconds. -/
def moment? (t : Timestamp) : Option Moment :=
  let ds := t.text.toList
  if ds.all Char.isDigit ∧ (ds.length = 17 ∨ ds.length = 14) then
    let part (start count : Nat) : Nat := Text.value ((ds.drop start).take count)
    let reading : Reading :=
      ⟨⟨part 0 4, part 4 2, part 6 2⟩, part 8 2, part 10 2, part 12 2, 0⟩
    (reading.moment? 0).bind fun m => m.later? (part 14 3)
  else none

/-- The next timestamp in text order. -/
def successor (t : Timestamp) : Timestamp :=
  ⟨t.text ++ "0"⟩

end Timestamp
end CommitTimeline
