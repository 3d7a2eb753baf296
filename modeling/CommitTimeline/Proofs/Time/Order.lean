/-
# The order of dates

Of two days the later one has the greater date, year before month before day
(`Date.key_lt_key`). Inside the calendar the years run from March to February, so the two
days are compared there first: by year, by month and by day of the month. January and
February then move into the next year, after the December of this one.
-/

import CommitTimeline.Proofs.Time.RoundTrip

namespace CommitTimeline

namespace Date

/-- Year, month and day in one number, the last two in two decimal places each. -/
def key (d : Date) : Int :=
  d.year * 10000 + d.month * 100 + d.day

/-- A later day of an era lies in the same year of the era or in a later one. -/
theorem yearAt_mono {n k : Nat} (h : n ≤ k) (hk : k < 146097) : yearAt n ≤ yearAt k := by
  obtain ⟨hn1, hn2, -⟩ := yearAt_spec (n := n) (by omega)
  obtain ⟨hk1, -, hk3⟩ := yearAt_spec hk
  by_contra hlt
  have hsucc := yearStart_succ (y := yearAt k) (by omega)
  have hmono := yearStart_mono (a := yearAt k + 1) (b := yearAt n) (by omega)
  omega

/-- Of two days of a year that begins in March, the later one lies in a later month or later in
the same one. -/
theorem monthAt_lt_or {a b : Nat} (h : a < b) : monthAt a < monthAt b ∨
    monthAt a = monthAt b ∧ a - monthStart (monthAt a) < b - monthStart (monthAt b) := by
  simp only [monthAt, monthStart]
  omega

/-- A day of the year lies in one of twelve months, and is one of its 31 days at most. -/
theorem monthAt_spec {a : Nat} (h : a < 366) :
    monthAt a < 12 ∧ a - monthStart (monthAt a) < 31 := by
  simp only [monthAt, monthStart]
  omega

/-- **A later day has a greater date.** -/
theorem key_lt_key {n k : Int} (h : n < k) : (ofNumber n).key < (ofNumber k).key := by
  obtain ⟨e, he⟩ : ∃ e, e = ((n + 719468) % 146097).toNat := ⟨_, rfl⟩
  obtain ⟨f, hf⟩ : ∃ f, f = ((k + 719468) % 146097).toNat := ⟨_, rfl⟩
  obtain ⟨he1, he2, he3⟩ := yearAt_spec (n := e) (by omega)
  obtain ⟨hf1, hf2, hf3⟩ := yearAt_spec (n := f) (by omega)
  have hmono : e ≤ f → yearAt e ≤ yearAt f := fun hle => yearAt_mono hle (by omega)
  have hlen : ∀ y, yearLength y ≤ 366 := by
    intro y
    unfold yearLength
    split <;> omega
  have hsame : yearAt e = yearAt f → yearStart (yearAt e) = yearStart (yearAt f) := by
    intro heq
    rw [heq]
  simp only [ofNumber, key, ← he, ← hf]
  obtain ⟨a, ha⟩ : ∃ a, a = e - yearStart (yearAt e) := ⟨_, rfl⟩
  obtain ⟨b, hb⟩ : ∃ b, b = f - yearStart (yearAt f) := ⟨_, rfl⟩
  rw [← ha, ← hb]
  -- the years that begin in March and the days since then are in this order
  have horder : (n + 719468) / 146097 * 400 + (yearAt e : Int) <
        (k + 719468) / 146097 * 400 + (yearAt f : Int) ∨
      (n + 719468) / 146097 * 400 + (yearAt e : Int) =
        (k + 719468) / 146097 * 400 + (yearAt f : Int) ∧ a < b := by
    by_cases hera : (n + 719468) / 146097 = (k + 719468) / 146097
    · have hef : e < f := by omega
      have hy := hmono (by omega)
      by_cases heq : yearAt e = yearAt f
      · have := hsame heq
        exact .inr ⟨by omega, by omega⟩
      · exact .inl (by omega)
    · exact .inl (by omega)
  have ha366 : a < 366 := by
    have := hlen (yearAt e)
    omega
  have hb366 : b < 366 := by
    have := hlen (yearAt f)
    omega
  generalize (n + 719468) / 146097 * 400 + (yearAt e : Int) = y at horder
  generalize (k + 719468) / 146097 * 400 + (yearAt f : Int) = z at horder
  have hmonth := monthAt_lt_or (a := a) (b := b)
  have hma := monthAt_spec ha366
  have hmb := monthAt_spec hb366
  clear he hf he1 he2 he3 hf1 hf2 hf3 hmono hlen hsame ha hb h ha366 hb366
  generalize a - monthStart (monthAt a) = i at *
  generalize b - monthStart (monthAt b) = j at *
  generalize monthAt a = p at *
  generalize monthAt b = q at *
  by_cases hp : p < 10 <;> by_cases hq : q < 10 <;> simp only [hp, hq, if_true, if_false] <;> omega

/-- Later days have later keys. -/
theorem key_le_key {n k : Int} (h : n ≤ k) : (ofNumber n).key ≤ (ofNumber k).key := by
  rcases Int.lt_or_eq_of_le h with hlt | rfl
  · exact Int.le_of_lt (key_lt_key hlt)
  · exact Int.le_refl _

end Date

end CommitTimeline
