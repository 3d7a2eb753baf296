/-
# Blanks around a text, and numerals in it

Trimming cuts a text into the blanks in front, what neither starts nor ends with one, and the
blanks behind, and there is only one way to do so (`Text.trim_eq_iff`). A numeral of a number is
its digits, after any zeros and at most one plus sign, and these are the texts that are read as
numbers (`Text.readUpTo_eq_ok_iff`).
-/

import CommitTimeline.Proofs.Text.Numeral
import CommitTimeline.Proofs.Time.RoundTrip
import Mathlib.Data.List.TakeWhile

namespace CommitTimeline
namespace Text

variable {s core before after : List Char} {c : Char} {n m w limit : Nat}

/-- The text neither starts nor ends with a blank. -/
def IsTrimmed (s : List Char) : Prop :=
  (∀ c ∈ s.head?, isBlank c = false) ∧ ∀ c ∈ s.getLast?, isBlank c = false

/-- The text has only blanks around `core`. -/
def Encloses (s core : List Char) : Prop :=
  ∃ before after, s = before ++ core ++ after ∧ (∀ c ∈ before, isBlank c = true) ∧
    ∀ c ∈ after, isBlank c = true

/-- A text without blanks has none around it. -/
theorem isTrimmed_of_forall (h : ∀ c ∈ s, isBlank c = false) : IsTrimmed s :=
  ⟨fun c hc => h c (List.mem_of_mem_head? hc), fun c hc => h c (List.mem_of_getLast? hc)⟩

/-- Blanks have no small letters. -/
theorem toLower_of_isBlank (h : isBlank c = true) : c.toLower = c := by
  unfold Char.toLower
  split
  · rename_i hupper
    simp only [ge_iff_le, UInt32.le_iff_toNat_le] at hupper
    change 65 ≤ c.toNat ∧ c.toNat ≤ 90 at hupper
    simp only [isBlank, Bool.or_eq_true, Bool.and_eq_true, decide_eq_true_eq, beq_iff_eq] at h
    omega
  · rfl

/-- Blanks in front are taken away. -/
theorem trimStart_append (h : ∀ c ∈ before, isBlank c = true) (s : List Char) :
    trimStart (before ++ s) = trimStart s :=
  List.dropWhile_append_of_pos h

/-- A text that does not begin with a blank is left as it is. -/
theorem trimStart_of_head? (h : ∀ c ∈ s.head?, isBlank c = false) : trimStart s = s := by
  cases s with
  | nil => rfl
  | cons c s => exact trimStart_cons (h c rfl) s

/-- What is left of a text does not start with a blank, and blanks only were taken off. -/
theorem exists_trimStart (s : List Char) :
    ∃ before, s = before ++ trimStart s ∧ (∀ c ∈ before, isBlank c = true) ∧
      ∀ c ∈ (trimStart s).head?, isBlank c = false := by
  refine ⟨s.takeWhile isBlank, List.takeWhile_append_dropWhile.symm, ?_, ?_⟩
  · exact fun c hc => List.mem_takeWhile_imp hc
  · intro c hc
    have h := List.head?_dropWhile_not isBlank s
    rw [trimStart] at hc
    rw [Option.mem_def.1 hc] at h
    simpa using h

/-- Trimming takes away the blanks around a text, and nothing else. -/
theorem encloses_trim (s : List Char) : IsTrimmed (trim s) ∧ Encloses s (trim s) := by
  obtain ⟨before, hs, hbefore, hhead⟩ := exists_trimStart s
  obtain ⟨after, hrest, hafter, hlast⟩ := exists_trimStart (trimStart s).reverse
  have hsplit : trimStart s = trim s ++ after.reverse := by
    rw [trim, ← List.reverse_append, ← hrest, List.reverse_reverse]
  refine ⟨⟨?_, ?_⟩, before, after.reverse, ?_, hbefore, ?_⟩
  · -- what the whole starts with is what its nonempty first part starts with
    intro c hc
    refine hhead c ?_
    rw [hsplit, List.head?_append, Option.mem_def.1 hc]
    rfl
  · intro c hc
    rw [trim, List.getLast?_reverse] at hc
    exact hlast c hc
  · rw [List.append_assoc, ← hsplit]
    exact hs
  · exact fun c hc => hafter c (List.mem_reverse.1 hc)

/-- What lies between blanks is what trimming leaves. -/
theorem trim_of_encloses (ht : IsTrimmed core) (h : Encloses s core) : trim s = core := by
  obtain ⟨before, after, rfl, hbefore, hafter⟩ := h
  have hafter : ∀ c ∈ after.reverse, isBlank c = true :=
    fun c hc => hafter c (List.mem_reverse.1 hc)
  rw [trim, List.append_assoc, trimStart_append hbefore]
  by_cases hne : core = []
  · subst hne
    obtain ⟨front, hsplit, -, hhead⟩ := exists_trimStart after
    have hnil : trimStart after = [] := by
      have h := trimStart_append (s := []) fun c hc => hafter c (List.mem_reverse.2 hc)
      rw [List.append_nil] at h
      exact h
    rw [List.nil_append, hnil]
    rfl
  · have hstart : trimStart (core ++ after) = core ++ after := by
      refine trimStart_of_head? ?_
      rw [List.head?_append, Option.or_of_isSome (by simp [hne])]
      exact ht.1
    rw [hstart, List.reverse_append, trimStart_append hafter, trimStart_of_head?,
      List.reverse_reverse]
    rw [List.head?_reverse]
    exact ht.2

/-- **Trimming takes off the blanks around a text, and all of them.** -/
theorem trim_eq_iff : trim s = core ↔ IsTrimmed core ∧ Encloses s core := by
  constructor
  · rintro rfl
    exact encloses_trim s
  · rintro ⟨ht, h⟩
    exact trim_of_encloses ht h

/-- The text is a numeral of the number: its digits, zeros in front of them or none, and one
plus sign in front of all or none. -/
def IsNumeral (n : Nat) (s : List Char) : Prop :=
  ∃ width, s = padded width n ∨ s = '+' :: padded width n

/-- A padded numeral has at least one digit. -/
theorem padded_ne_nil (width n : Nat) : padded width n ≠ [] := by
  simp [padded, numeral_ne_nil]

/-- A width of one adds no zeros. -/
theorem padded_one (n : Nat) : padded 1 n = numeral n := by
  have hlength : (numeral n).length ≠ 0 := mt List.length_eq_zero_iff.1 (numeral_ne_nil n)
  have hzero : 1 - (numeral n).length = 0 := by omega
  rw [padded, hzero]
  rfl

/-- A number that fits in a width is written there with zeros in front of its digits. -/
theorem fixed_eq_padded (h : n < Nat.pow 10 (w + 1)) : fixed (w + 1) n = padded (w + 1) n := by
  induction w generalizing n with
  | zero =>
    have hn : n < 10 := h
    rw [padded_one, numeral, if_pos hn]
    rfl
  | succ w ih =>
    have hn : n / 10 < Nat.pow 10 (w + 1) := Nat.div_lt_of_lt_mul (Nat.mul_comm _ 10 ▸ h)
    rw [fixed, ih hn]
    by_cases hlt : n < 10
    · have hdiv : n / 10 = 0 := Nat.div_eq_of_lt hlt
      have hzero : numeral 0 = ['0'] := by decide +kernel
      rw [hdiv, padded, padded, hzero, numeral, if_pos hlt, ← List.replicate_succ']
      simp
    · have hnumeral : numeral n = numeral (n / 10) ++ [digit n] := by
        conv_lhs => rw [numeral, if_neg hlt]
      rw [padded, padded, hnumeral, List.length_append, List.length_singleton,
        Nat.add_sub_add_right, List.append_assoc]

/-- Every run of digits is a numeral of its value. -/
theorem padded_value {ds : List Char} (hne : ds ≠ []) (h : ∀ c ∈ ds, c.isDigit = true) :
    padded ds.length (value ds) = ds := by
  obtain ⟨w, hw⟩ := Nat.exists_eq_succ_of_ne_zero (mt List.length_eq_zero_iff.1 hne)
  have hlt := value_lt h
  rw [hw] at hlt
  rw [hw, ← fixed_eq_padded hlt, ← Nat.succ_eq_add_one, ← hw, fixed_value h]

/-- A numeral of a number are digits that have its value, with a plus sign or without. -/
theorem isNumeral_iff : IsNumeral n s ↔
    ∃ ds, ds ≠ [] ∧ (∀ c ∈ ds, c.isDigit = true) ∧ value ds = n ∧ (s = ds ∨ s = '+' :: ds) := by
  constructor
  · rintro ⟨w, h⟩
    exact ⟨padded w n, padded_ne_nil w n, fun c => isDigit_of_mem_padded, value_padded w n, h⟩
  · rintro ⟨ds, hne, hd, rfl, h⟩
    rw [← padded_value hne hd] at h
    exact ⟨ds.length, h⟩

/-- A numeral has at least one digit. -/
theorem IsNumeral.ne_nil (h : IsNumeral n s) : s ≠ [] := by
  obtain ⟨w, rfl | rfl⟩ := h
  · exact padded_ne_nil w n
  · exact List.cons_ne_nil _ _

/-- A numeral has no blanks around it. -/
theorem IsNumeral.isTrimmed (h : IsNumeral n s) : IsTrimmed s := by
  refine isTrimmed_of_forall fun c hc => ?_
  have hpadded : ∀ w, c ∈ padded w n → isBlank c = false :=
    fun w hc => isBlank_of_isDigit (isDigit_of_mem_padded hc)
  obtain ⟨w, rfl | rfl⟩ := h
  · exact hpadded w hc
  · rcases List.mem_cons.1 hc with rfl | hc
    · decide
    · exact hpadded w hc

/-- A character of a numeral is a digit, unless it is the plus sign in front. -/
theorem IsNumeral.isDigit (h : IsNumeral n (before ++ c :: after)) (hc : c ≠ '+' ∨ before ≠ []) :
    c.isDigit = true := by
  obtain ⟨w, h | h⟩ := h
  · have hmem : c ∈ padded w n := h ▸ by simp
    exact isDigit_of_mem_padded hmem
  · cases before with
    | nil =>
      have hplus : c = '+' := (List.cons.inj h).1
      exact absurd hplus (hc.resolve_right fun hne => hne rfl)
    | cons b before =>
      have hmem : c ∈ padded w n := (List.cons.inj h).2 ▸ by simp
      exact isDigit_of_mem_padded hmem

/-- A character in the text is not a digit, nor a plus sign in front of all. -/
def HasForeign (s : List Char) : Prop :=
  ∃ before c after, s = before ++ c :: after ∧ c.isDigit = false ∧ (c ≠ '+' ∨ before ≠ [])

/-- A text with a foreign character is the numeral of no number. -/
theorem HasForeign.not_isNumeral (h : HasForeign s) : ¬ IsNumeral n s := by
  obtain ⟨before, c, after, rfl, hdigit, hc⟩ := h
  exact fun hn => Bool.false_ne_true (hdigit.symm.trans (hn.isDigit hc))

/-- Digits are read as their number if it is within the limit: a number that has gone beyond
it does not come back. -/
theorem readDigits_eq_ok_iff (hn : n ≤ limit) : readDigits limit n s = .ok m ↔
    (∀ c ∈ s, c.isDigit = true) ∧ s.foldl (fun n c => 10 * n + digitValue c) n = m ∧
      m ≤ limit := by
  induction s generalizing n with
  | nil =>
    simp only [readDigits, List.foldl_nil, Except.ok.injEq, List.not_mem_nil, false_imp_iff,
      implies_true, true_and]
    exact ⟨fun h => ⟨h, h ▸ hn⟩, And.left⟩
  | cons c s ih =>
    rw [readDigits, List.forall_mem_cons, List.foldl_cons]
    split
    · rename_i hc
      split
      · rename_i hle
        rw [ih hle]
        simp only [hc, true_and]
      · rename_i hgt
        have hmono := le_foldl_digits s (10 * n + digitValue c)
        refine iff_of_false nofun ?_
        rintro ⟨-, rfl, hm⟩
        exact hgt (Nat.le_trans hmono hm)
    · rename_i hc
      exact iff_of_false nofun fun h => hc h.1.1

/-- **The numerals of the numbers up to the limit are read, and nothing else.** -/
theorem readUpTo_eq_ok_iff : readUpTo limit s = .ok n ↔ IsNumeral n s ∧ n ≤ limit := by
  have hdigits : ∀ ds, readDigits limit 0 ds = .ok n ↔
      (∀ c ∈ ds, c.isDigit = true) ∧ value ds = n ∧ n ≤ limit :=
    fun ds => readDigits_eq_ok_iff (Nat.zero_le limit)
  rw [isNumeral_iff]
  unfold readUpTo
  split
  · refine iff_of_false nofun ?_
    rintro ⟨⟨ds, hne, -, -, h | h⟩, -⟩
    · exact hne h.symm
    · cases h
  · refine iff_of_false nofun ?_
    rintro ⟨⟨ds, hne, hd, -, h | h⟩, -⟩
    · exact absurd (hd '+' (h ▸ List.mem_singleton_self _)) (by decide)
    · exact hne (List.cons.inj h).2.symm
  · rename_i rest hrest
    rw [hdigits]
    constructor
    · rintro ⟨hd, hv, hle⟩
      exact ⟨⟨rest, hrest, hd, hv, .inr rfl⟩, hle⟩
    · rintro ⟨⟨ds, -, hd, hv, h | h⟩, hle⟩
      · exact absurd (hd '+' (h ▸ List.mem_cons_self)) (by decide)
      · obtain rfl := (List.cons.inj h).2
        exact ⟨hd, hv, hle⟩
  · rename_i hnil hsign hsigned
    rw [hdigits]
    constructor
    · rintro ⟨hd, hv, hle⟩
      exact ⟨⟨s, hnil, hd, hv, .inl rfl⟩, hle⟩
    · rintro ⟨⟨ds, -, hd, hv, rfl | rfl⟩, hle⟩
      · exact ⟨hd, hv, hle⟩
      · exact absurd rfl (hsigned ds)

/-- A text is a numeral of one number at most. -/
theorem IsNumeral.unique (hn : IsNumeral n s) (hm : IsNumeral m s) : n = m := by
  have hread := readUpTo_eq_ok_iff.2 ⟨hn, Nat.le_max_left n m⟩
  have hread' := readUpTo_eq_ok_iff.2 ⟨hm, Nat.le_max_right n m⟩
  exact Except.ok.inj (hread.symm.trans hread')

end Text
end CommitTimeline
