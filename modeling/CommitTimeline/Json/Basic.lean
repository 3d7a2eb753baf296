/-
# JSON values

`Json` is a value as a text spells it: members of an object keep their order and
may repeat, numbers keep their spelling. A literal that fits the grammar but
denotes no value (a text with bytes that are no UTF-8 or half a surrogate pair,
a number beyond double precision, an object with such a text for a key) is
`broken`; it does no harm where it is skipped.
-/

import CommitTimeline.Json.Number

namespace CommitTimeline

/-- A JSON value. -/
inductive Json where
  | null
  | bool (b : Bool)
  | number (n : Json.Number)
  | text (s : String)
  | array (items : List Json)
  | object (members : List (String × Json))
  /-- A literal that denotes no value. -/
  | broken

namespace Json

/-- The value of a natural number. -/
def nat (n : Nat) : Json :=
  .number (.ofNat n)

mutual

/-- How many arrays and objects lie around the innermost value. -/
def depth : Json → Nat
  | .array items => itemsDepth items + 1
  | .object members => membersDepth members + 1
  | _ => 0

/-- The greatest depth of some values. -/
def itemsDepth : List Json → Nat
  | [] => 0
  | item :: items => max item.depth (itemsDepth items)

/-- The greatest depth of the values of some members. -/
def membersDepth : List (String × Json) → Nat
  | [] => 0
  | (_, v) :: members => max v.depth (membersDepth members)

end

mutual

/-- No part of the value is broken. -/
def isSound : Json → Bool
  | .array items => itemsSound items
  | .object members => membersSound members
  | .broken => false
  | _ => true

/-- No part of the values is broken. -/
def itemsSound : List Json → Bool
  | [] => true
  | item :: items => item.isSound && itemsSound items

/-- No part of the values of the members is broken. -/
def membersSound : List (String × Json) → Bool
  | [] => true
  | (_, v) :: members => v.isSound && membersSound members

end

/-- The number of arrays and objects that may lie around a value that is kept. -/
def depthLimit : Nat := 127

/-- The value can be kept inside `around` arrays and objects: nothing in it is
broken and it does not nest too deep. -/
def isKept (around : Nat) (j : Json) : Bool :=
  j.isSound && decide (j.depth + around ≤ depthLimit)

end Json
end CommitTimeline
