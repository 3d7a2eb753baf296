/-
# Large double-precision numbers

The natural numbers among the double-precision numbers: those that 53 bits and a
power of two give. `nearest` rounds a natural number to one of them, and `bound`
is the first that rounds past the largest. `nearest_of_lt` says that a number of
at most 53 bits stays as it is.
-/

namespace CommitTimeline
namespace Double

/-- The distance between the numbers with 53 significant bits about `n`. -/
def spacing (n : Nat) : Nat :=
  Nat.pow 2 (n.log2 - 52)

/-- The nearest number with 53 significant bits; of two at the same distance, the
one whose last bit is zero. -/
def nearest (n : Nat) : Nat :=
  let below := n / spacing n
  let rest := n % spacing n
  if 2 * rest < spacing n ∨ 2 * rest = spacing n ∧ below % 2 = 0 then below * spacing n
  else (below + 1) * spacing n

/-- Numbers from here on round past the largest double-precision number: half a unit
in its last place lies between. -/
def bound : Nat :=
  Nat.pow 2 1024 - Nat.pow 2 970

/-- Below 2^53 the doubles are all the integers. -/
theorem spacing_of_lt {n : Nat} (h : n < Nat.pow 2 53) : spacing n = 1 := by
  have : n.log2 - 52 = 0 := by
    by_cases hn : n = 0
    · subst hn; decide
    · have := (Nat.log2_lt hn).2 h
      omega
  rw [spacing, this]

/-- A number of at most 53 bits is not rounded. -/
theorem nearest_of_lt {n : Nat} (h : n < Nat.pow 2 53) : nearest n = n := by
  simp [nearest, spacing_of_lt h, Nat.mod_one]

end Double
end CommitTimeline
