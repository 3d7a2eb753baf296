/-
# Numbers of JSON

A number literal keeps its spelling apart from its value: `1`, `1.0` and `1e0`
are different literals, and only the first is an integer. `Number.overflows`
tells whether a literal denotes more than a double-precision number can, by the
significand and the power of ten that `Number.scientific` gives.
-/

import CommitTimeline.Json.Double
import CommitTimeline.Text.Numeral

namespace CommitTimeline
namespace Json

/-- A number literal: sign, digits before the point, after it, and exponent. -/
structure Number where
  negative : Bool
  whole : List Char
  fraction : Option (List Char)
  exponent : Option (Bool × List Char)
  deriving DecidableEq, Repr

namespace Number

/-- The literal of a natural number. -/
def ofNat (n : Nat) : Number :=
  ⟨false, Text.numeral n, none, none⟩

/-- The characters of a literal. -/
def chars (n : Number) : List Char :=
  (if n.negative then ['-'] else []) ++ n.whole ++
    (match n.fraction with
      | some ds => '.' :: ds
      | none => []) ++
    (match n.exponent with
      | some (negative, ds) => 'e' :: (if negative then '-' :: ds else ds)
      | none => [])

/-- The natural number that a literal without sign, fraction and exponent denotes. -/
def toNat? (n : Number) : Option Nat :=
  if n.negative = false ∧ n.fraction = none ∧ n.exponent = none then some (Text.value n.whole)
  else none

/-- The integer that a literal without fraction and exponent denotes; a zero with a
sign denotes none. -/
def toInt? (n : Number) : Option Int :=
  if n.fraction = none ∧ n.exponent = none then
    if n.negative = false then some (Text.value n.whole)
    else if Text.value n.whole = 0 then none
    else some (-(Text.value n.whole : Int))
  else none

/-- Takes digits after `n`, the number denoted so far, for as long as a word of 64
bits holds what they denote; gives the digits that are left, too. -/
def takeDigits (n : Nat) : List Char → Nat × List Char
  | [] => (n, [])
  | c :: rest =>
    if 10 * n + Text.digitValue c < UInt64.size then takeDigits (10 * n + Text.digitValue c) rest
    else (n, c :: rest)

/-- The power of ten that the exponent of a literal stands for. -/
def scale (n : Number) : Int :=
  match n.exponent with
  | some (negative, ds) => if negative then -(Text.value ds : Int) else Text.value ds
  | none => 0

/-- A significand of 64 bits and a power of ten whose product is what a literal
denotes, but for the digits that the significand has no room for: each of them
before the point counts as a zero, and those after it are left out. -/
def scientific (n : Number) : Nat × Int :=
  let (whole, unread) := takeDigits 0 n.whole
  let (significand, rest) := takeDigits whole (n.fraction.getD [])
  let places := (n.fraction.getD []).length - rest.length
  (significand, unread.length - places + n.scale)

/-- The literal is too large in magnitude for a double-precision number. Significand
and power of ten are each rounded to such a number, and so is their product, which
leaves two spellings of one number on different sides now and then. -/
def overflows (n : Number) : Bool :=
  let (significand, power) := n.scientific
  if significand = 0 ∨ power < 0 then false
  else if power > 308 then true
  else
    Double.bound ≤ Double.nearest significand * Double.nearest (Nat.pow 10 power.toNat)

end Number
end Json
end CommitTimeline
