/-
# Reading a written time

The calendar and clock reading of a moment denotes that moment
(`Moment.moment?_reading`), and the RFC 3339 text of a moment is read back as it
(`Rfc3339.read?_write`): years outside 0 to 9999, fractions of a second and leap
seconds included.
-/

import CommitTimeline.Proofs.Json.RoundTrip
import CommitTimeline.Time.Rfc3339
import Mathlib.Tactic.ByContra

namespace CommitTimeline

namespace Text

/-- Zeros in front do not change the value. -/
theorem value_zeros_append (k : Nat) (ds : List Char) :
    value (List.replicate k '0' ++ ds) = value ds := by
  induction k with
  | zero => rfl
  | succ k ih =>
    rw [List.replicate_succ, List.cons_append, ← ih]
    rfl

/-- Every zero behind makes ten times the value. -/
theorem value_append_zeros (ds : List Char) (k : Nat) :
    value (ds ++ List.replicate k '0') = value ds * Nat.pow 10 k := by
  induction k with
  | zero => rw [List.replicate_zero, List.append_nil]; exact (Nat.mul_one _).symm
  | succ k ih =>
    have h := value_append_digit (ds ++ List.replicate k '0') 0
    have h0 : digit 0 = '0' := by decide
    rw [h0, List.append_assoc, ← List.replicate_succ', ih] at h
    rw [h]
    show 10 * (value ds * Nat.pow 10 k) + 0 = value ds * (Nat.pow 10 k * 10)
    rw [Nat.add_zero, Nat.mul_comm, Nat.mul_assoc]

/-- A padded number has its own value. -/
theorem value_padded (w n : Nat) : value (padded w n) = n := by
  rw [padded, value_zeros_append, value_numeral]

/-- A padded number is written in digits. -/
theorem isDigit_of_mem_padded {w n : Nat} {c : Char} (h : c ∈ padded w n) : c.isDigit = true := by
  rcases List.mem_append.1 h with h | h
  · rw [List.eq_of_mem_replicate h]
    decide
  · exact isDigit_of_mem_numeral h

/-- A digit is no blank. -/
theorem isBlank_of_isDigit {c : Char} (h : c.isDigit = true) : isBlank c = false := by
  rw [Bool.eq_false_iff]
  intro hb
  simp only [Char.isDigit, Bool.and_eq_true, decide_eq_true_eq, ge_iff_le, UInt32.le_iff_toNat_le]
    at h
  change 48 ≤ c.toNat ∧ c.toNat ≤ 57 at h
  simp only [isBlank, Bool.or_eq_true, Bool.and_eq_true, decide_eq_true_eq, beq_iff_eq] at hb
  omega

/-- Nothing is trimmed in front of what is no blank. -/
theorem trimStart_cons {c : Char} (h : isBlank c = false) (s : List Char) :
    trimStart (c :: s) = c :: s := by
  rw [trimStart, List.dropWhile_cons_of_neg (by simp [h])]

end Text

namespace Date

/-- The dates of the day numbers that moments can have lie in the years of the calendar. -/
theorem year_ofNumber {n : Int} (h : -96465292 ≤ n) (h' : n ≤ 95026236) :
    firstYear ≤ (ofNumber n).year ∧ (ofNumber n).year ≤ lastYear := by
  have hn := number_ofNumber n
  obtain ⟨h1, h2, h3, h4⟩ := isReal_ofNumber n
  generalize ofNumber n = d at *
  obtain ⟨y, m, d⟩ := d
  simp only at h1 h2 h3 h4
  have h5 : d ≤ 31 := by
    refine Nat.le_trans h4 ?_
    unfold daysIn
    repeat' split
    all_goals omega
  obtain ⟨year, hy⟩ : ∃ year, year = if m ≤ 2 then y - 1 else y := ⟨_, rfl⟩
  obtain ⟨inYear, hi⟩ : ∃ inYear, inYear = monthStart ((m + 9) % 12) + d - 1 := ⟨_, rfl⟩
  -- a date before March lies late in the year that began in March
  have h6 : m ≤ 2 ∧ 306 ≤ inYear ∧ inYear ≤ 367 ∨ 2 < m ∧ inYear ≤ 305 := by
    rw [hi, monthStart]
    have h13 : m = 1 ∨ m = 2 ∨ m = 3 ∨ m = 4 ∨ m = 5 ∨ m = 6 ∨ m = 7 ∨ m = 8 ∨ m = 9 ∨
        m = 10 ∨ m = 11 ∨ m = 12 := by omega
    rcases h13 with rfl | rfl | rfl | rfl | rfl | rfl | rfl | rfl | rfl | rfl | rfl | rfl <;> omega
  obtain ⟨q, hq⟩ : ∃ q, q = year / 400 := ⟨_, rfl⟩
  obtain ⟨r, hr⟩ : ∃ r, r = (year % 400).toNat := ⟨_, rfl⟩
  have hyear : year = 400 * q + r ∧ r < 400 := by omega
  simp only [number, ← hy, ← hr, ← hi, ← hq, yearStart] at hn
  clear hi hr hq h4
  simp only [firstYear, lastYear]
  constructor
  · by_contra hlt
    have h7 : year ≤ -262144 := by split at hy <;> omega
    by_cases hq : q = -656
    · omega
    · omega
  · by_contra hlt
    have h7 : 262142 ≤ year := by split at hy <;> omega
    by_cases hq : q = 655
    · omega
    · omega

end Date

namespace Moment

/-- **A reading denotes its moment.** -/
theorem moment?_reading (m : Moment) : m.reading.moment? 0 = some m := by
  obtain ⟨second, nano, valid⟩ := m
  have ⟨h1, h2, h3, h4⟩ := valid
  have hd : (second % 86400).toNat % 60 = (second % 60).toNat := by omega
  have hl : 1000000000 ≤ nano → (second % 86400).toNat % 60 = 59 := by
    intro hn
    have := h4 hn
    omega
  obtain ⟨hy, hy'⟩ := Date.year_ofNumber (n := second / 86400) (by omega) (by omega)
  have hreal : (reading ⟨second, nano, valid⟩).IsReal := by
    refine ⟨hy, hy', Date.isReal_ofNumber _, ?_, ?_, ?_, ?_⟩
    all_goals
      simp only [reading, secondOfDay]
      omega
  have hm : ∀ s n, s = second → n = nano → of? s n = some ⟨second, nano, valid⟩ := by
    rintro s n rfl rfl
    exact dif_pos valid
  rw [Reading.moment?, if_pos hreal]
  simp only [reading, secondOfDay, Date.number_ofNumber]
  by_cases hn : 1000000000 ≤ nano
  · have hs : (second % 86400).toNat % 60 + nano / 1000000000 = 60 := by
      have := hl hn
      omega
    simp only [hs, if_true, Int.toNat_one, Nat.one_mul]
    exact hm _ _ (by omega) (by omega)
  · have hs : (second % 86400).toNat % 60 + nano / 1000000000 ≠ 60 := by omega
    simp only [hs, if_false, Int.toNat_zero, Nat.zero_mul, Nat.add_zero]
    exact hm _ _ (by omega) (by omega)

end Moment

namespace Rfc3339

/-- Digits are read up to the first other character, or as many as are wanted. -/
theorem digits?_append {ds : List Char} (hne : ds ≠ []) (hd : ∀ c ∈ ds, c.isDigit = true)
    {rest : List Char} {most : Nat} (hl : ds.length ≤ most)
    (hr : ∀ c ∈ rest.head?, c.isDigit = false) :
    digits? most (ds ++ rest) = some (Text.value ds, rest) := by
  have ht : ((ds ++ rest).take most).takeWhile Char.isDigit = ds := by
    rw [List.take_append, List.take_of_length_le hl, List.takeWhile_append_of_pos hd]
    have : (rest.take (most - ds.length)).takeWhile Char.isDigit = [] := by
      cases rest with
      | nil => simp
      | cons c r =>
        cases hk : most - ds.length with
        | zero => rfl
        | succ k =>
          rw [List.take_succ_cons, List.takeWhile_cons_of_neg]
          rw [hr c rfl]
          decide
    rw [this, List.append_nil]
  simp only [digits?, ht, if_neg hne, List.drop_left]

/-- A number of two digits is read back. -/
theorem number?_fixed {n : Nat} (h : n < 100) {rest : List Char}
    (hr : ∀ c ∈ rest.head?, c.isDigit = false) :
    number? 2 (Text.fixed 2 n ++ rest) = some (n, rest) := by
  have hl := Text.length_fixed 2 n
  have hd : ∀ c ∈ Text.fixed 2 n, c.isDigit = true := fun c => Text.isDigit_of_mem_fixed
  have hv : Text.value (Text.fixed 2 n) = n := Text.value_fixed h
  have hne : Text.fixed 2 n ≠ [] := by
    intro h0
    rw [h0] at hl
    exact absurd hl (by decide)
  have hs : Text.trimStart (Text.fixed 2 n ++ rest) = Text.fixed 2 n ++ rest := by
    cases hf : Text.fixed 2 n with
    | nil => exact absurd hf hne
    | cons c cs =>
      rw [List.cons_append, Text.trimStart_cons]
      exact Text.isBlank_of_isDigit (hd c (hf ▸ List.mem_cons_self))
  rw [number?, hs, digits?_append hne hd (by omega) hr, hv]

/-- A character that is no blank is taken off the front. -/
theorem after?_cons {c : Char} (h : Text.isBlank c = false) (s : List Char) :
    after? c (c :: s) = some s := by
  rw [after?, Text.trimStart_cons h]
  simp

/-- A year is read back from its text. -/
theorem year?_yearText (y : Int) {rest : List Char} (hr : ∀ c ∈ rest.head?, c.isDigit = false) :
    year? (yearText y ++ rest) = some (y, rest) := by
  unfold yearText
  split
  · rename_i hy
    have hl := Text.length_fixed 4 y.toNat
    have hd : ∀ c ∈ Text.fixed 4 y.toNat, c.isDigit = true := fun c => Text.isDigit_of_mem_fixed
    have hv : Text.value (Text.fixed 4 y.toNat) = y.toNat :=
      Text.value_fixed (show y.toNat < 10000 by omega)
    have hn : digits? 4 (Text.fixed 4 y.toNat ++ rest) = some (y.toNat, rest) := by
      rw [digits?_append _ hd (by omega) hr, hv]
      intro h0
      rw [h0] at hl
      exact absurd hl (by decide)
    cases hf : Text.fixed 4 y.toNat with
    | nil =>
      rw [hf] at hl
      exact absurd hl (by decide)
    | cons c cs =>
      have hc : c.isDigit = true := hd c (hf ▸ List.mem_cons_self)
      rw [hf, List.cons_append] at hn
      rw [List.cons_append, year?, Text.trimStart_cons (Text.isBlank_of_isDigit hc)]
      split
      · rename_i heq
        rw [List.cons.injEq] at heq
        rw [heq.1] at hc
        exact absurd hc (by decide)
      · rename_i heq
        rw [List.cons.injEq] at heq
        rw [heq.1] at hc
        exact absurd hc (by decide)
      · rw [hn, Option.map_some]
        simp only [Option.some.injEq, Prod.mk.injEq, and_true]
        omega
  · rename_i hy
    have hp : Text.padded 4 y.natAbs ≠ [] := by simp [Text.padded, Text.numeral_ne_nil]
    have hd : ∀ c ∈ Text.padded 4 y.natAbs, c.isDigit = true :=
      fun c => Text.isDigit_of_mem_padded
    have hn : digits? (Text.padded 4 y.natAbs ++ rest).length (Text.padded 4 y.natAbs ++ rest) =
        some (y.natAbs, rest) := by
      rw [digits?_append hp hd (by rw [List.length_append]; omega) hr, Text.value_padded]
    split
    · rw [List.cons_append, year?, Text.trimStart_cons (by decide)]
      simp only [hn, Option.map_some, Option.some.injEq, Prod.mk.injEq, and_true]
      omega
    · rw [List.cons_append, year?, Text.trimStart_cons (by decide)]
      simp only [hn, Option.map_some, Option.some.injEq, Prod.mk.injEq, and_true]
      omega

/-- A fraction of a second is read back from its text. -/
theorem nano?_fraction {n : Nat} (h : n < 1000000000) :
    nano? (fraction n ++ ['Z']) = some (n, ['Z']) := by
  have hfixed : ∀ w v, v < Nat.pow 10 w → w ≠ 0 → w ≤ 9 → v * Nat.pow 10 (9 - w) = n →
      nano? ('.' :: Text.fixed w v ++ ['Z']) = some (n, ['Z']) := by
    intro w v hv hw hw' hn
    have hl := Text.length_fixed w v
    have hd : ∀ c ∈ Text.fixed w v, c.isDigit = true := fun c => Text.isDigit_of_mem_fixed
    have hne : Text.fixed w v ≠ [] := by
      intro h0
      rw [h0] at hl
      exact hw hl.symm
    have ht : (Text.fixed w v ++ ['Z']).takeWhile Char.isDigit = Text.fixed w v := by
      rw [List.takeWhile_append_of_pos hd]
      simp
    have hz : (Text.fixed w v ++ List.replicate 9 '0').take 9 =
        Text.fixed w v ++ List.replicate (9 - w) '0' := by
      rw [List.take_append, List.take_of_length_le (by omega), hl, List.take_replicate]
      congr 2
      omega
    rw [List.cons_append, nano?]
    simp only [ht, if_neg hne, hz, Text.value_append_zeros, Text.value_fixed hv, hn,
      List.drop_left]
  unfold fraction
  split
  · subst_vars
    rfl
  split
  · exact hfixed 3 _ (show n / 1000000 < 1000 by omega) (by decide) (by decide)
      (show n / 1000000 * 1000000 = n by omega)
  split
  · exact hfixed 6 _ (show n / 1000 < 1000000 by omega) (by decide) (by decide)
      (show n / 1000 * 1000 = n by omega)
  · exact hfixed 9 _ (show n < 1000000000 from h) (by decide) (by decide)
      (show n * 1 = n by omega)

/-- **A written moment is read back,** in any year, to the nanosecond, also within a
leap second. -/
theorem read?_write (m : Moment) : read? (write m) = some m := by
  obtain ⟨second, nano, valid⟩ := m
  have hm := Moment.moment?_reading ⟨second, nano, valid⟩
  have ⟨h1, h2, h3, h4⟩ := valid
  have hreal := Date.isReal_ofNumber (second / 86400)
  unfold write
  simp only [Moment.reading, Moment.secondOfDay] at hm ⊢
  obtain ⟨hmonth, hmonth', hday, hday'⟩ := hreal
  have hday : (Date.ofNumber (second / 86400)).day < 100 := by
    refine Nat.lt_of_le_of_lt hday' ?_
    unfold Date.daysIn
    repeat' split
    all_goals omega
  have hsep : ∀ (c : Char) (s : List Char), c.isDigit = false →
      ∀ d ∈ (c :: s).head?, d.isDigit = false := by
    rintro c s h d hd
    rw [List.head?_cons, Option.mem_some_iff] at hd
    exact hd ▸ h
  have hfrac : ∀ (n : Nat), ∀ d ∈ (fraction n ++ ['Z']).head?, d.isDigit = false := by
    intro n
    unfold fraction
    repeat' split
    all_goals exact hsep _ _ (by decide)
  simp only [List.append_assoc, List.cons_append]
  rw [read?, year?_yearText _ (hsep _ _ (by decide))]
  simp only [Option.bind_eq_bind, Option.bind_some, after?_cons (c := '-') (by decide)]
  rw [number?_fixed (by omega) (hsep _ _ (by decide))]
  simp only [Option.bind_some, after?_cons (c := '-') (by decide)]
  rw [number?_fixed hday (hsep _ _ (by decide))]
  simp only [Option.bind_some]
  rw [number?_fixed (by omega) (hsep _ _ (by decide))]
  simp only [Option.bind_some, after?_cons (c := ':') (by decide)]
  rw [number?_fixed (by omega) (hsep _ _ (by decide))]
  simp only [Option.bind_some, after?_cons (c := ':') (by decide)]
  rw [number?_fixed (by omega) (hfrac _)]
  simp only [Option.bind_some]
  rw [nano?_fraction (by omega)]
  have hz : offset? (Text.trimStart ['Z']) = some (0, []) := by decide
  simp only [Option.bind_some, hz]
  rw [if_pos (by decide), hm]

end Rfc3339
end CommitTimeline
