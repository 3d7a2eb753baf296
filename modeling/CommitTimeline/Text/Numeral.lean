/-
# Decimal numerals

Writing: `numeral n` has the fewest digits, `fixed w n` exactly `w` digits and
`padded w n` at least `w`. Reading: `value` is the number that a run of digits
denotes, `readUpTo` reads a numeral under a limit and tells a foreign character
from a number that is too large, `integer?` reads a signed numeral.

`value_fixed` and `value_numeral` say that reading undoes writing.
-/

namespace CommitTimeline
namespace Text

/-- The last decimal digit of a number. -/
def digit (n : Nat) : Char :=
  Char.ofNat (48 + n % 10)

/-- The number a single digit denotes. -/
def digitValue (c : Char) : Nat :=
  c.toNat - 48

/-- What holds of the ten digits holds of every digit of a number. -/
theorem digit_cases (P : Char → Prop) (h : ∀ d, d < 10 → P (Char.ofNat (48 + d))) (n : Nat) :
    P (digit n) :=
  h (n % 10) (Nat.mod_lt _ (by decide))

/-- A digit of a number is a digit. -/
theorem isDigit_digit (n : Nat) : (digit n).isDigit = true :=
  digit_cases (·.isDigit = true) (by decide) n

/-- A digit of a number has the value of its last decimal place. -/
theorem digitValue_digit (n : Nat) : digitValue (digit n) = n % 10 := by
  have h : ∀ d, d < 10 → digitValue (Char.ofNat (48 + d)) = d := by decide
  exact h _ (Nat.mod_lt _ (by decide))

/-- The number a run of digits denotes, most significant digit first. -/
def value (ds : List Char) : Nat :=
  ds.foldl (fun n c => 10 * n + digitValue c) 0

/-- One more digit multiplies the value by ten and adds its own. -/
theorem value_append_digit (ds : List Char) (n : Nat) :
    value (ds ++ [digit n]) = 10 * value ds + n % 10 := by
  simp [value, digitValue_digit]

/-- The numeral of a number with the fewest digits. -/
def numeral (n : Nat) : List Char :=
  if n < 10 then [digit n] else numeral (n / 10) ++ [digit n]
termination_by n

/-- The last `width` digits of a number, leading zeros included. -/
def fixed : Nat → Nat → List Char
  | 0, _ => []
  | width + 1, n => fixed width (n / 10) ++ [digit n]

/-- The numeral of a number, with leading zeros up to `width` digits. -/
def padded (width n : Nat) : List Char :=
  List.replicate (width - (numeral n).length) '0' ++ numeral n

/-- **Reading undoes writing:** the shortest numeral denotes its number. -/
theorem value_numeral (n : Nat) : value (numeral n) = n := by
  fun_induction numeral n with
  | case1 n h => simp [value, digitValue_digit]; omega
  | case2 n h ih => rw [value_append_digit, ih]; omega

/-- A numeral of fixed width has this width. -/
theorem length_fixed (width n : Nat) : (fixed width n).length = width := by
  induction width generalizing n with
  | zero => rfl
  | succ w ih => simp [fixed, ih]

/-- **Reading undoes writing:** a fixed-width numeral denotes its number, if the
number has no more digits than that. -/
theorem value_fixed {width n : Nat} (h : n < Nat.pow 10 width) : value (fixed width n) = n := by
  induction width generalizing n with
  | zero =>
    have : n = 0 := Nat.lt_one_iff.1 h
    subst this
    rfl
  | succ w ih =>
    have : n < Nat.pow 10 w * 10 := h
    rw [fixed, value_append_digit, ih (by omega)]
    omega

/-- A numeral of fixed width has digits only. -/
theorem isDigit_of_mem_fixed {width n : Nat} {c : Char} (h : c ∈ fixed width n) :
    c.isDigit = true := by
  induction width generalizing n with
  | zero => simp [fixed] at h
  | succ w ih =>
    simp only [fixed, List.mem_append, List.mem_singleton] at h
    rcases h with h | rfl
    · exact ih h
    · exact isDigit_digit n

/-- Why a text is not a numeral within a limit. -/
inductive NumeralFault where
  /-- A character is not a digit, or there is none after a sign. -/
  | invalidDigit
  /-- The digits so far denote more than the limit. -/
  | tooLarge
  /-- There is no character at all. -/
  | empty
  deriving DecidableEq, Repr

/-- The wording of a fault. -/
def NumeralFault.message : NumeralFault → String
  | .invalidDigit => "invalid digit found in string"
  | .tooLarge => "number too large to fit in target type"
  | .empty => "cannot parse integer from empty string"

/-- Reads digits after `n`, the number denoted so far; the first character that
is foreign or leads past the limit decides the fault. -/
def readDigits (limit n : Nat) : List Char → Except NumeralFault Nat
  | [] => .ok n
  | c :: rest =>
    if c.isDigit then
      if 10 * n + digitValue c ≤ limit then readDigits limit (10 * n + digitValue c) rest
      else .error .tooLarge
    else .error .invalidDigit

/-- Reads an unsigned numeral of at most `limit`; one leading plus is allowed. -/
def readUpTo (limit : Nat) : List Char → Except NumeralFault Nat
  | [] => .error .empty
  | ['+'] => .error .invalidDigit
  | '+' :: rest => readDigits limit 0 rest
  | s => readDigits limit 0 s

/-- The number a nonempty run of digits denotes. -/
def natural? (s : List Char) : Option Nat :=
  if s ≠ [] ∧ s.all Char.isDigit then some (value s) else none

/-- The integer a numeral with an optional sign denotes. -/
def integer? : List Char → Option Int
  | '-' :: rest => (natural? rest).map fun n => -(n : Int)
  | '+' :: rest => (natural? rest).map Int.ofNat
  | s => (natural? s).map Int.ofNat

end Text
end CommitTimeline
