/-
# Numerals of a fixed width

A run of digits is the numeral of its value in its own width (`Text.fixed_value`), so
numerals of one width and the numbers that fit in it correspond one to one. A numeral
falls into the numerals of its parts (`Text.fixed_add`), and numerals of one width are
in the order of their numbers (`Text.fixed_lt_fixed_iff`).
-/

import CommitTimeline.Text.Numeral
import Mathlib.Data.List.Induction

namespace CommitTimeline
namespace Text

variable {ds es : List Char} {c : Char} {v w n m k : Nat}

/-- The value of a digit is below ten. -/
theorem digitValue_lt (h : c.isDigit = true) : digitValue c < 10 := by
  simp only [Char.isDigit, Bool.and_eq_true, decide_eq_true_eq, ge_iff_le, UInt32.le_iff_toNat_le]
    at h
  change 48 ≤ c.toNat ∧ c.toNat ≤ 57 at h
  unfold digitValue
  omega

/-- A digit is that of its value. -/
theorem digit_digitValue (h : c.isDigit = true) : digit (digitValue c) = c := by
  have hlt := digitValue_lt h
  simp only [Char.isDigit, Bool.and_eq_true, decide_eq_true_eq, ge_iff_le, UInt32.le_iff_toNat_le]
    at h
  change 48 ≤ c.toNat ∧ c.toNat ≤ 57 at h
  have hn : 48 + digitValue c % 10 = c.toNat := by
    unfold digitValue at hlt ⊢
    omega
  rw [digit, hn, Char.ofNat_toNat]

/-- Of two digits the one of the smaller number comes first. -/
theorem digit_lt_digit (h : n % 10 < m % 10) : digit n < digit m := by
  have hall : ∀ a, a < 10 → ∀ b, b < 10 → a < b → Char.ofNat (48 + a) < Char.ofNat (48 + b) := by
    decide
  exact hall _ (Nat.mod_lt _ (by decide)) _ (Nat.mod_lt _ (by decide)) h

/-- One more digit makes ten times the value, and its own value. -/
theorem value_append_singleton (ds : List Char) (c : Char) :
    value (ds ++ [c]) = 10 * value ds + digitValue c := by
  simp [value]

/-- A number does not become less by more digits. -/
theorem le_foldl_digits (ds : List Char) (n : Nat) :
    n ≤ ds.foldl (fun n c => 10 * n + digitValue c) n := by
  induction ds generalizing n with
  | nil => exact Nat.le_refl n
  | cons c ds ih =>
    have h := ih (10 * n + digitValue c)
    rw [List.foldl_cons]
    omega

/-- The digits that follow shift the number of those before them. -/
theorem value_append (ds es : List Char) :
    value (ds ++ es) = value ds * Nat.pow 10 es.length + value es := by
  induction es using List.reverseRecOn with
  | nil => simp [value]
  | append_singleton es c ih =>
    have hpow : Nat.pow 10 (es ++ [c]).length = Nat.pow 10 es.length * 10 := by
      rw [List.length_append]
      rfl
    rw [← List.append_assoc, value_append_singleton, value_append_singleton, ih, hpow,
      ← Nat.mul_assoc]
    omega

/-- The value of digits is below the power of ten of their number. -/
theorem value_lt (h : ∀ c ∈ ds, c.isDigit = true) : value ds < Nat.pow 10 ds.length := by
  induction ds using List.reverseRecOn with
  | nil => decide
  | append_singleton ds c ih =>
    have hds := ih fun d hd => h d (List.mem_append_left _ hd)
    have hc := digitValue_lt (h c (List.mem_append_right _ List.mem_cons_self))
    have hpow : Nat.pow 10 (ds ++ [c]).length = Nat.pow 10 ds.length * 10 := by
      rw [List.length_append]
      rfl
    rw [value_append_singleton, hpow]
    omega

/-- The number of some of the digits is what the whole number has in their places. -/
theorem value_part (h : ∀ c ∈ ds, c.isDigit = true) {start count rest : Nat}
    (hl : ds.length = start + count + rest) :
    value ((ds.drop start).take count) = value ds / Nat.pow 10 rest % Nat.pow 10 count := by
  have hsplit : ds = ds.take start ++ ((ds.drop start).take count ++ ds.drop (start + count)) := by
    rw [← List.drop_drop, List.take_append_drop, List.take_append_drop]
  have hrest : (ds.drop (start + count)).length = rest := by
    rw [List.length_drop]
    omega
  have hcount : ((ds.drop start).take count).length = count := by
    rw [List.length_take, List.length_drop]
    omega
  have hlow : value (ds.drop (start + count)) < Nat.pow 10 rest :=
    hrest ▸ value_lt fun c hc => h c (List.mem_of_mem_drop hc)
  have hpart : value ((ds.drop start).take count) < Nat.pow 10 count := by
    conv_rhs => rw [← hcount]
    exact value_lt fun c hc => h c (List.mem_of_mem_drop (List.mem_of_mem_take hc))
  have hvalue : value ds = value (ds.drop (start + count)) + (value ((ds.drop start).take count) +
      value (ds.take start) * Nat.pow 10 count) * Nat.pow 10 rest := by
    have hpow : Nat.pow 10 (count + rest) = Nat.pow 10 count * Nat.pow 10 rest := Nat.pow_add ..
    conv_lhs => rw [hsplit]
    rw [value_append, value_append, List.length_append, hcount, hrest, hpow, Nat.add_mul,
      Nat.mul_assoc]
    omega
  rw [hvalue, Nat.add_mul_div_right _ _ (Nat.zero_lt_of_lt hlow), Nat.div_eq_of_lt hlow,
    Nat.zero_add, Nat.add_mul_mod_self_right, Nat.mod_eq_of_lt hpart]

/-- **Writing undoes reading:** digits are the numeral of their number in their width. -/
theorem fixed_value (h : ∀ c ∈ ds, c.isDigit = true) : fixed ds.length (value ds) = ds := by
  induction ds using List.reverseRecOn with
  | nil => rfl
  | append_singleton ds c ih =>
    have hc := h c (List.mem_append_right _ List.mem_cons_self)
    have hlt := digitValue_lt hc
    have hdiv : (10 * value ds + digitValue c) / 10 = value ds := by omega
    have hmod : (10 * value ds + digitValue c) % 10 = digitValue c % 10 := by omega
    have hdigit : digit (10 * value ds + digitValue c) = c := by
      calc digit (10 * value ds + digitValue c) = digit (digitValue c) := by
            rw [digit, digit, hmod]
        _ = c := digit_digitValue hc
    rw [value_append_singleton, List.length_append, List.length_singleton, fixed, hdiv, hdigit,
      ih fun d hd => h d (List.mem_append_left _ hd)]

/-- A numeral is the numeral of its first digits and that of the others. -/
theorem fixed_add (h : k < Nat.pow 10 w) :
    fixed (v + w) (n * Nat.pow 10 w + k) = fixed v n ++ fixed w k := by
  induction w generalizing k with
  | zero =>
    obtain rfl : k = 0 := Nat.lt_one_iff.1 h
    have hn : n * Nat.pow 10 0 + 0 = n := Nat.mul_one n
    rw [hn, fixed, List.append_nil]
    rfl
  | succ w ih =>
    have hpow : n * Nat.pow 10 (w + 1) = n * Nat.pow 10 w * 10 := (Nat.mul_assoc n _ 10).symm
    have hk : k < Nat.pow 10 w * 10 := h
    have hdiv : (n * Nat.pow 10 w * 10 + k) / 10 = n * Nat.pow 10 w + k / 10 := by omega
    have hdigit : digit (n * Nat.pow 10 w * 10 + k) = digit k := by
      rw [digit, digit]
      congr 2
      omega
    rw [hpow, ← Nat.add_assoc, fixed, fixed, hdiv, hdigit, ih (by omega), List.append_assoc]

/-- Where texts of one length differ, what follows does not count. -/
theorem append_lt_append (hl : ds.length = es.length) (h : ds < es) (x y : List Char) :
    ds ++ x < es ++ y := by
  induction ds generalizing es with
  | nil =>
    cases es with
    | nil => exact absurd h (List.lt_irrefl _)
    | cons e es => cases hl
  | cons d ds ih =>
    cases es with
    | nil => cases hl
    | cons e es =>
      rw [List.cons_append, List.cons_append]
      rcases List.cons_lt_cons_iff.1 h with hlt | ⟨rfl, hlt⟩
      · exact List.cons_lt_cons_iff.2 (.inl hlt)
      · exact List.cons_lt_cons_iff.2 (.inr ⟨rfl, ih (Nat.succ.inj hl) hlt⟩)

/-- Of two numerals of one width, that of the smaller number comes first. -/
theorem fixed_lt_fixed (h : n < m) (hm : m < Nat.pow 10 w) : fixed w n < fixed w m := by
  induction w generalizing n m with
  | zero =>
    have : m < 1 := hm
    omega
  | succ w ih =>
    have hm : m < Nat.pow 10 w * 10 := hm
    rw [fixed, fixed]
    by_cases hdiv : n / 10 < m / 10
    · refine append_lt_append ?_ (ih hdiv (by omega)) _ _
      rw [length_fixed, length_fixed]
    · have heq : n / 10 = m / 10 := by omega
      rw [heq]
      refine List.append_left_lt ?_
      exact List.cons_lt_cons_iff.2 (.inl (digit_lt_digit (by omega)))

/-- **Numerals of one width are in the order of their numbers.** -/
theorem fixed_lt_fixed_iff (hn : n < Nat.pow 10 w) (hm : m < Nat.pow 10 w) :
    fixed w n < fixed w m ↔ n < m := by
  refine ⟨?_, fun h => fixed_lt_fixed h hm⟩
  intro h
  rcases Nat.lt_trichotomy n m with hlt | rfl | hgt
  · exact hlt
  · exact absurd h (List.lt_irrefl _)
  · exact absurd (List.lt_trans h (fixed_lt_fixed hgt hn)) (List.lt_irrefl _)

end Text
end CommitTimeline
