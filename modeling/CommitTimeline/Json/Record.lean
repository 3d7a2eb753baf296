/-
# Records in JSON

A record is written as an object, or as an array of its fields in order. Reading
skips what it does not know, and refuses a field given twice.
-/

import CommitTimeline.Json.Basic

namespace CommitTimeline
namespace Json

/-- The members of a record with the given fields. In an object every field stands
at most once; an array holds the first of them, in order, and nothing else. -/
def record? (fields : List String) : Json → Option (List (String × Json))
  | .object members =>
    if fields.all fun f => (members.filter fun m => m.1 = f).length ≤ 1 then some members else none
  | .array items => if items.length ≤ fields.length then some (fields.zip items) else none
  | _ => none

/-- A text. -/
def string? : Json → Option String
  | .text s => some s
  | _ => none

/-- A truth value. -/
def bool? : Json → Option Bool
  | .bool b => some b
  | _ => none

/-- A natural number, written without sign, fraction and exponent. -/
def nat? : Json → Option Nat
  | .number n => n.toNat?
  | _ => none

/-- A natural number of 32 bits. -/
def uint32? (j : Json) : Option UInt32 := do
  let n ← j.nat?
  if n < UInt32.size then some n.toUInt32 else none

/-- A natural number of 64 bits. -/
def uint64? (j : Json) : Option UInt64 := do
  let n ← j.nat?
  if n < UInt64.size then some n.toUInt64 else none

/-- A list of values that `item?` reads. -/
def list? {α : Type} (item? : Json → Option α) : Json → Option (List α)
  | .array items => items.mapM item?
  | _ => none

/-- The name of a case without fields: a text, or the only key of an object that
holds null. -/
def case? : Json → Option String
  | .text s => some s
  | .object [(s, .null)] => some s
  | _ => none

end Json
end CommitTimeline
