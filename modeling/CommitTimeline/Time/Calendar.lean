/-
# The calendar

Dates of the proleptic Gregorian calendar and their day numbers, counted from
1970-01-01. Years run from March to February inside the computation, so that a
leap day is the last day of its year, and 400 years of 146097 days repeat.

`Date.ofNumber` and `Date.number` are inverse to each other
(`Date.number_ofNumber`, `Date.ofNumber_number`).
-/

namespace CommitTimeline

/-- A day of the calendar; month and day count from one. -/
structure Date where
  year : Int
  month : Nat
  day : Nat
  deriving DecidableEq, Repr

namespace Date

/-- Every fourth year is a leap year, of the full centuries every fourth. -/
def isLeap (year : Int) : Bool :=
  year % 4 == 0 && (year % 100 != 0 || year % 400 == 0)

/-- The number of days of a month; none beyond the twelfth. -/
def daysIn (year : Int) (month : Nat) : Nat :=
  if month = 2 then if isLeap year then 29 else 28
  else if month = 4 ∨ month = 6 ∨ month = 9 ∨ month = 11 then 30
  else if 1 ≤ month ∧ month ≤ 12 then 31
  else 0

/-- The date exists. -/
def IsReal (d : Date) : Prop :=
  1 ≤ d.month ∧ d.month ≤ 12 ∧ 1 ≤ d.day ∧ d.day ≤ daysIn d.year d.month

instance (d : Date) : Decidable d.IsReal :=
  inferInstanceAs (Decidable (_ ∧ _))

/-- Days from 1 March to the first of the month that is `m` months later. -/
def monthStart (m : Nat) : Nat :=
  (153 * m + 2) / 5

/-- How many months after March a day lies that is `d` days after 1 March. -/
def monthAt (d : Nat) : Nat :=
  (5 * d + 2) / 153

/-- Days from the start of an era of 400 years to 1 March of its year `y`. -/
def yearStart (y : Nat) : Nat :=
  365 * y + y / 4 - y / 100

/-- The year of its era in which day `n` of the era lies. -/
def yearAt (n : Nat) : Nat :=
  let century := min (n / 36524) 3
  let inCentury := n - 36524 * century
  let quad := inCentury / 1461
  100 * century + 4 * quad + min ((inCentury - 1461 * quad) / 365) 3

/-- The number of a day, with 1970-01-01 as day zero. -/
def number (d : Date) : Int :=
  let year := if d.month ≤ 2 then d.year - 1 else d.year
  let inYear := monthStart ((d.month + 9) % 12) + d.day - 1
  year / 400 * 146097 + (yearStart (year % 400).toNat + inYear : Nat) - 719468

/-- The day with the given number. -/
def ofNumber (n : Int) : Date :=
  let inEra := ((n + 719468) % 146097).toNat
  let inYear := inEra - yearStart (yearAt inEra)
  let month := monthAt inYear
  let year : Int := (n + 719468) / 146097 * 400 + yearAt inEra
  { year := if month < 10 then year else year + 1
    month := if month < 10 then month + 3 else month - 9
    day := inYear - monthStart month + 1 }

/-- The number of days of the year that starts on 1 March of year `y` of an era. -/
def yearLength (y : Nat) : Nat :=
  if (y + 1) % 4 = 0 ∧ ((y + 1) % 100 ≠ 0 ∨ (y + 1) % 400 = 0) then 366 else 365

/-- A year starts where the one before ends. -/
theorem yearStart_succ {y : Nat} (h : y < 399) :
    yearStart (y + 1) = yearStart y + yearLength y := by
  simp only [yearStart, yearLength]
  split <;> omega

/-- Every day of the cycle lies in the year that is found for it. -/
theorem yearAt_spec {n : Nat} (h : n < 146097) :
    yearAt n < 400 ∧ yearStart (yearAt n) ≤ n ∧
      n < yearStart (yearAt n) + yearLength (yearAt n) := by
  obtain ⟨c, hc⟩ : ∃ c, c = min (n / 36524) 3 := ⟨_, rfl⟩
  obtain ⟨r, hr⟩ : ∃ r, r = n - 36524 * c := ⟨_, rfl⟩
  obtain ⟨q, hq⟩ : ∃ q, q = r / 1461 := ⟨_, rfl⟩
  obtain ⟨s, hs⟩ : ∃ s, s = r - 1461 * q := ⟨_, rfl⟩
  obtain ⟨k, hk⟩ : ∃ k, k = min (s / 365) 3 := ⟨_, rfl⟩
  have hy : yearAt n = 100 * c + 4 * q + k := by simp only [yearAt, hk, hs, hq, hr, hc]
  have hc3 : c ≤ 3 := by omega
  have hn : n = 36524 * c + r := by omega
  have hr' : r < 36524 ∨ c = 3 ∧ r = 36524 := by omega
  clear hr hc
  have hrs : r = 1461 * q + s := by omega
  have hs' : s < 1461 := by omega
  clear hs hq
  have hk3 : k ≤ 3 := by omega
  have hsk : 365 * k ≤ s := by omega
  have hsk' : s < 365 * (k + 1) ∨ k = 3 := by omega
  clear hk
  have hq' : q < 25 := by omega
  have hstart : yearStart (yearAt n) = 36524 * c + 1461 * q + 365 * k := by
    have h1 : (100 * c + 4 * q + k) / 4 = 25 * c + q := by omega
    have h2 : (100 * c + 4 * q + k) / 100 = c := by omega
    rw [hy, yearStart, h1, h2]
    omega
  refine ⟨by omega, by omega, ?_⟩
  rw [hstart, hy, yearLength]
  by_cases hleap : s = 1460
  · have hk : k = 3 := by omega
    subst hk
    have h4 : (100 * c + 4 * q + 3 + 1) % 4 = 0 := by omega
    have h100 : (100 * c + 4 * q + 3 + 1) % 100 ≠ 0 ∨ (100 * c + 4 * q + 3 + 1) % 400 = 0 := by
      by_cases q = 24 <;> omega
    rw [if_pos ⟨h4, h100⟩]
    omega
  · split <;> omega

/-- Later years start later. -/
theorem yearStart_mono {a b : Nat} (h : a ≤ b) : yearStart a ≤ yearStart b := by
  simp only [yearStart]
  rcases Nat.eq_or_lt_of_le h with rfl | h
  · exact Nat.le_refl _
  · omega

/-- The days of the years of a cycle lie in the cycle. -/
theorem yearStart_add_lt {y d : Nat} (hy : y < 400) (hd : d < yearLength y) :
    yearStart y + d < 146097 := by
  by_cases h : y = 399
  · subst h
    have h1 : yearStart 399 = 145731 := by decide
    have h2 : yearLength 399 = 366 := by decide
    omega
  · have h1 := yearStart_succ (y := y) (by omega)
    have h2 := yearStart_mono (a := y + 1) (b := 399) (by omega)
    have h3 : yearStart 399 = 145731 := by decide
    omega

/-- A day of a year is found in this year. -/
theorem yearAt_eq {y d : Nat} (hy : y < 400) (hd : d < yearLength y) :
    yearAt (yearStart y + d) = y := by
  obtain ⟨h1, h2, h3⟩ := yearAt_spec (yearStart_add_lt hy hd)
  rcases Nat.lt_trichotomy (yearAt (yearStart y + d)) y with h | h | h
  · have := yearStart_succ (y := yearAt (yearStart y + d)) (by omega)
    have := yearStart_mono (a := yearAt (yearStart y + d) + 1) (b := y) (by omega)
    omega
  · exact h
  · have := yearStart_succ (y := y) (by omega)
    have := yearStart_mono (a := y + 1) (b := yearAt (yearStart y + d)) (by omega)
    omega

/-- **Day numbers determine dates:** the date of a number has that number. -/
theorem number_ofNumber (n : Int) : (ofNumber n).number = n := by
  obtain ⟨e, he⟩ : ∃ e, e = ((n + 719468) % 146097).toNat := ⟨_, rfl⟩
  obtain ⟨h1, h2, h3⟩ := yearAt_spec (n := e) (by omega)
  have h4 : yearLength (yearAt e) ≤ 366 := by simp only [yearLength]; split <;> omega
  simp only [ofNumber, number, ← he]
  generalize yearAt e = y at *
  generalize hd : e - yearStart y = d at *
  have h5 : monthAt d < 12 := by simp only [monthAt]; omega
  have h6 : monthStart (monthAt d) ≤ d := by simp only [monthAt, monthStart]; omega
  generalize monthAt d = m at *
  have h9 : ((n + 719468) / 146097 * 400 + (y : Int)) / 400 = (n + 719468) / 146097 := by omega
  have h10 : (((n + 719468) / 146097 * 400 + (y : Int)) % 400).toNat = y := by omega
  by_cases h : m < 10
  · have h7 : (m + 3 + 9) % 12 = m := by omega
    have h8 : ¬ m + 3 ≤ 2 := by omega
    simp only [h, h7, h8, h9, h10, if_true, if_false]
    omega
  · have h7 : (m - 9 + 9) % 12 = m := by omega
    have h8 : m - 9 ≤ 2 := by omega
    simp only [h, h7, h8, if_true, if_false, Int.add_sub_cancel, h9, h10]
    omega

/-- Every day number belongs to a date that exists. -/
theorem isReal_ofNumber (n : Int) : (ofNumber n).IsReal := by
  obtain ⟨e, he⟩ : ∃ e, e = ((n + 719468) % 146097).toNat := ⟨_, rfl⟩
  obtain ⟨h1, h2, h3⟩ := yearAt_spec (n := e) (by omega)
  simp only [ofNumber, IsReal, ← he]
  generalize yearAt e = y at *
  generalize hd : e - yearStart y = d at *
  have h5 : d < yearLength y := by omega
  generalize (n + 719468) / 146097 = era at *
  clear h2 h3 he hd
  have h7 : isLeap (era * 400 + y + 1) = true ↔ yearLength y = 366 := by
    simp only [isLeap, yearLength, Bool.and_eq_true, Bool.or_eq_true, beq_iff_eq, bne_iff_ne]
    split <;> omega
  have h8 : yearLength y = 366 ∨ yearLength y = 365 := by
    simp only [yearLength]; split <;> simp
  obtain ⟨m, hm⟩ : ∃ m, m = monthAt d := ⟨_, rfl⟩
  rw [← hm]
  simp only [monthAt] at hm
  simp only [daysIn, monthStart]
  by_cases h : m < 10
  · simp only [h, if_true]
    refine ⟨by omega, by omega, by omega, ?_⟩
    split
    · omega
    split
    · omega
    split
    · omega
    · omega
  · simp only [h, if_false]
    refine ⟨by omega, by omega, by omega, ?_⟩
    split
    · rcases h8 with h8 | h8
      · rw [if_pos (h7.2 h8)]; omega
      · split <;> omega
    split
    · omega
    split
    · omega
    · omega

/-- **Dates determine day numbers:** a date that exists is found again from its number. -/
theorem ofNumber_number {d : Date} (h : d.IsReal) : ofNumber d.number = d := by
  obtain ⟨y, m, d⟩ := d
  obtain ⟨h1, h2, h3, h4⟩ := h
  simp only at h1 h2 h3 h4
  obtain ⟨year, hy⟩ : ∃ year, year = if m ≤ 2 then y - 1 else y := ⟨_, rfl⟩
  obtain ⟨inYear, hi⟩ : ∃ inYear, inYear = monthStart ((m + 9) % 12) + d - 1 := ⟨_, rfl⟩
  obtain ⟨r, hr⟩ : ∃ r, r = (year % 400).toNat := ⟨_, rfl⟩
  have h5 : number ⟨y, m, d⟩ = year / 400 * 146097 + (yearStart r + inYear : Nat) - 719468 := by
    simp only [number, hy, hi, hr]
  have h6 : year = year / 400 * 400 + r := by omega
  have hr' : r < 400 := by omega
  have h7 : isLeap (year + 1) = true ↔ yearLength r = 366 := by
    simp only [isLeap, yearLength, Bool.and_eq_true, Bool.or_eq_true, beq_iff_eq, bne_iff_ne]
    split <;> omega
  have h8 : yearLength r = 366 ∨ yearLength r = 365 := by
    simp only [yearLength]; split <;> simp
  have h9 : inYear < yearLength r ∧ monthAt inYear = (m + 9) % 12 := by
    have h13 : m = 1 ∨ m = 2 ∨ m = 3 ∨ m = 4 ∨ m = 5 ∨ m = 6 ∨ m = 7 ∨ m = 8 ∨ m = 9 ∨
        m = 10 ∨ m = 11 ∨ m = 12 := by omega
    simp only [monthAt]
    rcases h13 with rfl | rfl | rfl | rfl | rfl | rfl | rfl | rfl | rfl | rfl | rfl | rfl
    case inr.inl =>
      have h14 : y = year + 1 := by simp at hy; omega
      simp only [daysIn, if_true, h14] at h4
      simp only [monthStart] at hi
      split at h4
      · have := h7.1 (by assumption)
        omega
      · omega
    all_goals
      simp [daysIn] at h4
      simp only [monthStart] at hi
      omega
  have h10 := yearAt_eq hr' h9.1
  have h11 := yearStart_add_lt hr' h9.1
  have h12 : ((number ⟨y, m, d⟩ + 719468) % 146097).toNat = yearStart r + inYear := by omega
  have h13 : (number ⟨y, m, d⟩ + 719468) / 146097 = year / 400 := by omega
  simp only [ofNumber, h12, h13, h10, Nat.add_sub_cancel_left, h9.2, Date.mk.injEq]
  by_cases hm : m ≤ 2
  · have : (m + 9) % 12 = m + 9 := by omega
    rw [if_pos hm] at hy
    simp only [this] at *
    rw [if_neg (by omega), if_neg (by omega)]
    omega
  · have : (m + 9) % 12 = m - 3 := by omega
    rw [if_neg hm] at hy
    simp only [this] at *
    rw [if_pos (by omega), if_pos (by omega)]
    omega
end Date
end CommitTimeline
