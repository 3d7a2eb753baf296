/-
# Timestamps as numbers

The reading of a moment, to the millisecond, fits in one number of 17 decimal places, in
which every field has its own (`Moment.stamp`). In the years 0 to 9999 the timestamp of a
moment is the numeral of this number (`Timestamp.ofMoment_eq`), and what a timestamp of 17
or of 14 digits denotes is what its number denotes (`Timestamp.moment?_eq`).

The numbers are in the order of the moments (`Moment.stamp_lt_stamp_iff`); a leap second
has second 60, which comes between 59 and the next minute. And a number that denotes a
moment is its number (`Moment.stamp_of_ofStamp?`), so moments to the millisecond and the
numbers that denote one correspond one to one.
-/

import CommitTimeline.Proofs.Text.Numeral
import CommitTimeline.Proofs.Time.Elapsed
import CommitTimeline.Proofs.Time.Order
import CommitTimeline.Proofs.Timestamp

namespace CommitTimeline

/-- The reading with the decimal places of a number, without its milliseconds. -/
def Reading.ofStamp (N : Nat) : Reading where
  date := ⟨(N / 10000000000000 : Nat), N / 100000000000 % 100, N / 1000000000 % 100⟩
  hour := N / 10000000 % 100
  minute := N / 100000 % 100
  second := N / 1000 % 100
  nano := 0

namespace Moment

variable {m n : Moment} {N : Nat}

/-- The whole milliseconds into the second; in a leap second they go on from a thousand. -/
def milli (m : Moment) : Nat :=
  m.nano / 1000000

/-- The moment, cut off after its whole milliseconds. -/
def truncated (m : Moment) : Moment where
  second := m.second
  nano := m.milli * 1000000
  valid := by
    obtain ⟨h1, h2, h3, h4⟩ := m.valid
    unfold milli
    exact ⟨h1, h2, by omega, fun h => h4 (by omega)⟩

/-- The reading of a moment in one number: four places for the year, two each for month, day,
hour, minute and second, and three for the milliseconds. -/
def stamp (m : Moment) : Nat :=
  (m.reading.date.key.toNat * 1000000 + m.reading.hour * 10000 + m.reading.minute * 100 +
    m.reading.second) * 1000 + m.reading.nano / 1000000

/-- The moment that a number denotes, if the whole second of its reading has one. -/
def ofStamp? (N : Nat) : Option Moment :=
  ((Reading.ofStamp N).moment? 0).bind fun m => m.later? (N % 1000)

/-- Truncated to milliseconds, moments are ordered by the second and then by the millisecond. -/
theorem truncated_lt_iff :
    m.truncated < n.truncated ↔ m.second < n.second ∨ m.second = n.second ∧ m.milli < n.milli := by
  show m.second < n.second ∨ (m.second = n.second ∧ m.milli * 1000000 < n.milli * 1000000) ↔ _
  omega

/-- Two moments are truncated to the same one just if second and millisecond are the same. -/
theorem truncated_eq_iff :
    m.truncated = n.truncated ↔ m.second = n.second ∧ m.milli = n.milli := by
  simp only [truncated, Moment.mk.injEq]
  omega

/-- The time of day is that of the whole seconds; a leap second is one more than its second. -/
theorem reading_eq (m : Moment) :
    m.reading.hour < 24 ∧ m.reading.minute < 60 ∧
      (m.second % 86400 = m.reading.hour * 3600 + m.reading.minute * 60 + m.reading.second ∧
          m.reading.second < 60 ∧ m.milli = m.reading.nano / 1000000 ∧ m.milli < 1000 ∨
        m.second % 86400 + 1 = m.reading.hour * 3600 + m.reading.minute * 60 + m.reading.second ∧
          m.reading.second = 60 ∧ m.milli = 1000 + m.reading.nano / 1000000 ∧ m.milli < 2000) := by
  obtain ⟨-, -, hnano, hleap⟩ := m.valid
  obtain ⟨s, hs⟩ : ∃ s : Nat, m.second % 86400 = s := ⟨(m.second % 86400).toNat, by omega⟩
  have hdiv : s / 60 / 60 = s / 3600 := Nat.div_div_eq_div_mul s 60 60
  simp only [reading, secondOfDay, milli, hs, Int.toNat_natCast]
  omega

/-- Month and day fit in two places. -/
theorem date_lt (m : Moment) :
    1 ≤ m.reading.date.month ∧ m.reading.date.month ≤ 12 ∧ 1 ≤ m.reading.date.day ∧
      m.reading.date.day ≤ 31 := by
  obtain ⟨h1, h2, h3, h4⟩ := Date.isReal_ofNumber (m.second / 86400)
  refine ⟨h1, h2, h3, Nat.le_trans h4 ?_⟩
  unfold Date.daysIn
  repeat' split
  all_goals omega

/-- One field after the other. -/
theorem stamp_eq (hm : m.IsCommon) : m.stamp = (((((m.reading.date.year.toNat * 100 +
    m.reading.date.month) * 100 + m.reading.date.day) * 100 + m.reading.hour) * 100 +
    m.reading.minute) * 100 + m.reading.second) * 1000 + m.reading.nano / 1000000 := by
  have hy := hm.1
  unfold stamp Date.key
  omega

/-- **A later millisecond has a greater number.** -/
theorem stamp_lt_stamp (hm : m.IsCommon) (h : m.truncated < n.truncated) : m.stamp < n.stamp := by
  have hkey : m.second / 86400 < n.second / 86400 →
      m.reading.date.key < n.reading.date.key := Date.key_lt_key
  have hsame : m.second / 86400 = n.second / 86400 → m.reading.date = n.reading.date := by
    intro heq
    simp only [reading, heq]
  have hpos : 0 ≤ m.reading.date.key := by
    have := hm.1
    unfold Date.key
    omega
  obtain ⟨hmh, hmm, hms⟩ := m.reading_eq
  obtain ⟨hnh, hnm, hns⟩ := n.reading_eq
  rw [truncated_lt_iff] at h
  by_cases hday : m.second / 86400 = n.second / 86400
  · rw [stamp, stamp, hsame hday]
    omega
  · have hlt := hkey (by omega)
    unfold stamp
    omega

/-- What lies in one millisecond has one number. -/
theorem stamp_congr (h : m.truncated = n.truncated) : m.stamp = n.stamp := by
  obtain ⟨hsecond, hmilli⟩ := truncated_eq_iff.1 h
  have hdate : m.reading.date = n.reading.date := by simp only [reading, hsecond]
  obtain ⟨hmh, hmm, hms⟩ := m.reading_eq
  obtain ⟨hnh, hnm, hns⟩ := n.reading_eq
  rw [stamp, stamp, hdate]
  omega

/-- **The numbers are in the order of the moments,** to the millisecond. -/
theorem stamp_lt_stamp_iff (hm : m.IsCommon) (hn : n.IsCommon) :
    m.stamp < n.stamp ↔ m.truncated < n.truncated := by
  refine ⟨?_, stamp_lt_stamp hm⟩
  intro h
  by_contra hlt
  by_cases heq : m.truncated = n.truncated
  · have := stamp_congr heq
    omega
  · have hgt : n.truncated < m.truncated := by
      rw [truncated_lt_iff] at hlt ⊢
      rw [truncated_eq_iff] at heq
      omega
    have := stamp_lt_stamp hn hgt
    omega

/-- The number has no more than 17 places. -/
theorem stamp_lt (hm : m.IsCommon) : m.stamp < Nat.pow 10 17 := by
  show m.stamp < 100000000000000000
  have hy := hm.2
  obtain ⟨-, hmonth, -, hday⟩ := m.date_lt
  obtain ⟨hh, hmin, hs⟩ := m.reading_eq
  rw [stamp_eq hm]
  omega

/-- The whole second that a moment lies in. -/
def whole (m : Moment) : Moment where
  second := m.second
  nano := m.milli / 1000 * 1000000000
  valid := by
    obtain ⟨h1, h2, h3, h4⟩ := m.valid
    unfold milli
    exact ⟨h1, h2, by omega, fun h => h4 (by omega)⟩

/-- The whole second of a moment is read as the moment without its nanoseconds. -/
theorem reading_whole (m : Moment) : m.whole.reading = { m.reading with nano := 0 } := by
  simp only [reading, secondOfDay, whole, milli, Reading.mk.injEq, true_and]
  omega

/-- Milliseconds after a whole second, also if this is a leap second. -/
theorem later?_whole (m : Moment) :
    m.whole.later? (m.reading.nano / 1000000) = some m.truncated := by
  have hmilli : m.reading.nano / 1000000 = m.milli % 1000 := by
    simp only [milli, reading]
    omega
  rw [later?_eq_some_iff, hmilli]
  clear hmilli
  by_cases hleap : m.whole.IsLeap
  · refine .within hleap rfl ?_
    simp only [truncated, whole]
    omega
  · have hsmall : m.milli < 1000 := by
      simp only [IsLeap, whole] at hleap
      omega
    refine .beyond (fun h => absurd h hleap) ?_ ?_
    all_goals
      simp only [IsLeap, truncated, whole]
      omega

/-- The fields of a number are those of the reading. -/
theorem ofStamp_stamp (hm : m.IsCommon) :
    Reading.ofStamp m.stamp = { m.reading with nano := 0 } ∧
      m.stamp % 1000 = m.reading.nano / 1000000 := by
  obtain ⟨-, hmonth, -, hday⟩ := m.date_lt
  obtain ⟨hh, hmin, hs⟩ := m.reading_eq
  replace hs : m.reading.second < 100 ∧ m.reading.nano / 1000000 < 1000 := by omega
  have hstamp := stamp_eq hm
  have hyear : m.reading.date.year = m.reading.date.year.toNat := (Int.toNat_of_nonneg hm.1).symm
  generalize m.stamp = N at *
  generalize m.reading = r at *
  obtain ⟨⟨year, month, day⟩, hour, minute, second, nano⟩ := r
  generalize hy : year.toNat = y at *
  simp only [Reading.ofStamp, Reading.mk.injEq, Date.mk.injEq] at *
  -- the places up to each field, and then the field
  have h13 : N / 10000000000000 = y := by omega
  have h11 : N / 100000000000 = y * 100 + month := by omega
  have h9 : N / 1000000000 = (y * 100 + month) * 100 + day := by omega
  have h7 : N / 10000000 = ((y * 100 + month) * 100 + day) * 100 + hour := by omega
  have h5 : N / 100000 = (((y * 100 + month) * 100 + day) * 100 + hour) * 100 + minute := by omega
  have h3 : N / 1000 =
      ((((y * 100 + month) * 100 + day) * 100 + hour) * 100 + minute) * 100 + second := by omega
  have h0 : N % 1000 = nano / 1000000 := by omega
  rw [h13, h11, h9, h7, h5, h3, h0]
  clear hstamp h13 h11 h9 h7 h5 h3 h0
  refine ⟨⟨⟨hyear.symm, ?_, ?_⟩, ?_, ?_, ?_, trivial⟩, rfl⟩ <;> omega

/-- **A number denotes its moment,** to the millisecond. -/
theorem ofStamp?_stamp (hm : m.IsCommon) : ofStamp? m.stamp = some m.truncated := by
  obtain ⟨hreading, hmilli⟩ := ofStamp_stamp hm
  rw [ofStamp?, hreading, ← reading_whole, moment?_reading, Option.bind_some, hmilli,
    later?_whole]

/-- A reading that denotes a moment is the reading of this moment. -/
theorem reading_of_moment? {r : Reading} (h : r.moment? 0 = some m) : m.reading = r := by
  unfold Reading.moment? at h
  split at h
  · rename_i hr
    obtain ⟨-, -, hdate, hh, hmin, hs, hnano⟩ := hr
    obtain ⟨hv, hm⟩ := Option.dite_none_right_eq_some.1 h
    obtain rfl := Option.some.inj hm
    have hday := Date.ofNumber_number hdate
    obtain ⟨date, hour, minute, second, nano⟩ := r
    simp only [reading, secondOfDay, Reading.mk.injEq] at *
    refine ⟨(congrArg Date.ofNumber ?_).trans hday, ?_⟩ <;> split <;> omega
  · cases h

/-- Milliseconds that stay within the second. -/
theorem of_later? {b : Moment} {ms : Nat} (hb : b.reading.nano = 0) (hms : ms < 1000)
    (h : b.later? ms = some m) : m.second = b.second ∧ m.nano = b.nano + ms * 1000000 := by
  have hwhole : b.nano % 1000000000 = 0 := hb
  have hnano := b.valid.2.2.1
  rcases later?_eq_some_iff.1 h with ⟨-, hsecond, hnano⟩ | ⟨hleaves, hcommon, hline⟩
  · exact ⟨hsecond, hnano⟩
  · -- a leap second would be stayed in, so this is none
    have hzero : b.nano = 0 := by
      by_cases hleap : 1000000000 ≤ b.nano
      · have hfar := hleaves hleap
        omega
      · omega
    change ¬1000000000 ≤ m.nano at hcommon
    omega

/-- **A moment that a number denotes has this number,** and nothing beyond its milliseconds. -/
theorem stamp_of_ofStamp? (hN : N < Nat.pow 10 17) (h : ofStamp? N = some m) :
    m.IsCommon ∧ m.stamp = N ∧ m.truncated = m := by
  change N < 100000000000000000 at hN
  obtain ⟨b, hb, hl⟩ := Option.bind_eq_some_iff.1 h
  have hbase := reading_of_moment? hb
  have hzero : b.reading.nano = 0 := by rw [hbase, Reading.ofStamp]
  obtain ⟨hsecond, hnano⟩ := of_later? hzero (Nat.mod_lt N (by decide)) hl
  have hreading : m.reading = { Reading.ofStamp N with nano := N % 1000 * 1000000 } := by
    have hwhole : b.nano % 1000000000 = 0 := hzero
    rw [← hbase]
    simp only [reading, secondOfDay, hsecond, hnano, Reading.mk.injEq, true_and]
    omega
  refine ⟨?_, ?_, ?_⟩
  · rw [IsCommon, hreading, Reading.ofStamp]
    dsimp only
    omega
  · have hplaces : N / 1000 = (((N / 10000000000000 * 10000 + N / 100000000000 % 100 * 100 +
        N / 1000000000 % 100) * 100 + N / 10000000 % 100) * 100 + N / 100000 % 100) * 100 +
        N / 1000 % 100 := by
      have h3 : N / 1000 = N / 100000 * 100 + N / 1000 % 100 := by omega
      have h5 : N / 100000 = N / 10000000 * 100 + N / 100000 % 100 := by omega
      have h7 : N / 10000000 = N / 1000000000 * 100 + N / 10000000 % 100 := by omega
      have h9 : N / 1000000000 = N / 10000000000000 * 10000 + N / 100000000000 % 100 * 100 +
        N / 1000000000 % 100 := by omega
      rw [← h9, ← h7, ← h5, ← h3]
    rw [stamp, hreading, Reading.ofStamp, Date.key]
    dsimp only
    omega
  · obtain ⟨second, nano, valid⟩ := m
    have hwhole : b.nano % 1000000000 = 0 := hzero
    change nano = _ at hnano
    simp only [truncated, milli, Moment.mk.injEq, true_and]
    omega

end Moment

namespace Timestamp

variable {t : Timestamp} {m n : Moment}

/-- **The timestamp of a moment is the numeral of its number.** -/
theorem ofMoment_eq (hm : m.IsCommon) :
    ofMoment m = ⟨String.ofList (Text.fixed 17 m.stamp)⟩ := by
  obtain ⟨-, hmonth, -, hday⟩ := m.date_lt
  obtain ⟨hh, hmin, hs⟩ := m.reading_eq
  have hyear : yearText m.reading.date.year = Text.fixed 4 m.reading.date.year.toNat := if_pos hm
  have hpair : ∀ w n k, k < 100 → Text.fixed (w + 2) (n * 100 + k) =
      Text.fixed w n ++ Text.fixed 2 k := fun w n k hk => Text.fixed_add (w := 2) hk
  have htriple : ∀ w n k, k < 1000 → Text.fixed (w + 3) (n * 1000 + k) =
      Text.fixed w n ++ Text.fixed 3 k := fun w n k hk => Text.fixed_add (w := 3) hk
  rw [ofMoment, hyear, Moment.stamp_eq hm, htriple 14 _ _ (by omega), hpair 12 _ _ (by omega),
    hpair 10 _ _ (by omega), hpair 8 _ _ (by omega), hpair 6 _ _ (by omega),
    hpair 4 _ _ (by omega)]

/-- **The timestamps of moments are in the order of the moments,** to the millisecond. -/
theorem ofMoment_lt_ofMoment_iff (hm : m.IsCommon) (hn : n.IsCommon) :
    ofMoment m < ofMoment n ↔ m.truncated < n.truncated := by
  rw [← Moment.stamp_lt_stamp_iff hm hn, ← Text.fixed_lt_fixed_iff (m.stamp_lt hm) (n.stamp_lt hn),
    ofMoment_eq hm, ofMoment_eq hn]
  show String.ofList _ < String.ofList _ ↔ _
  rw [String.lt_iff, String.toList_ofList, String.toList_ofList]

/-- **A timestamp of digits denotes what its number denotes.** -/
theorem moment?_eq (hd : ∀ c ∈ t.text.toList, c.isDigit = true)
    (hl : t.text.toList.length = 17 ∨ t.text.toList.length = 14) :
    t.moment? = Moment.ofStamp?
      (Text.value t.text.toList * Nat.pow 10 (17 - t.text.toList.length)) := by
  have hall : t.text.toList.all Char.isDigit = true := List.all_eq_true.2 hd
  rw [moment?, if_pos ⟨hall, hl⟩, Moment.ofStamp?]
  dsimp only
  generalize t.text.toList = ds at *
  have hlt := Text.value_lt hd
  have hpart : ∀ start count rest p q, p = Nat.pow 10 rest → q = Nat.pow 10 count →
      ds.length = start + count + rest →
      Text.value ((ds.drop start).take count) = Text.value ds / p % q := by
    rintro start count rest _ _ rfl rfl hl
    exact Text.value_part hd hl
  obtain ⟨hreading, hmilli⟩ : Reading.ofStamp (Text.value ds * Nat.pow 10 (17 - ds.length)) =
      ⟨⟨(Text.value ((ds.drop 0).take 4) : Nat), Text.value ((ds.drop 4).take 2),
        Text.value ((ds.drop 6).take 2)⟩, Text.value ((ds.drop 8).take 2),
        Text.value ((ds.drop 10).take 2), Text.value ((ds.drop 12).take 2), 0⟩ ∧
      Text.value ds * Nat.pow 10 (17 - ds.length) % 1000 = Text.value ((ds.drop 14).take 3) := by
    rcases hl with hl | hl <;> rw [hl] at hlt hpart ⊢
    · change Text.value ds < 100000000000000000 at hlt
      rw [show Nat.pow 10 (17 - 17) = 1 from rfl, hpart 0 4 13 10000000000000 10000 rfl rfl rfl,
        hpart 4 2 11 100000000000 100 rfl rfl rfl, hpart 6 2 9 1000000000 100 rfl rfl rfl,
        hpart 8 2 7 10000000 100 rfl rfl rfl, hpart 10 2 5 100000 100 rfl rfl rfl,
        hpart 12 2 3 1000 100 rfl rfl rfl, hpart 14 3 0 1 1000 rfl rfl rfl]
      simp only [Reading.ofStamp, Reading.mk.injEq, Date.mk.injEq, and_true]
      omega
    · change Text.value ds < 100000000000000 at hlt
      rw [show Nat.pow 10 (17 - 14) = 1000 from rfl, hpart 0 4 10 10000000000 10000 rfl rfl rfl,
        hpart 4 2 8 100000000 100 rfl rfl rfl, hpart 6 2 6 1000000 100 rfl rfl rfl,
        hpart 8 2 4 10000 100 rfl rfl rfl, hpart 10 2 2 100 100 rfl rfl rfl,
        hpart 12 2 0 1 100 rfl rfl rfl, List.drop_of_length_le (Nat.le_of_eq hl),
        List.take_nil, show Text.value [] = 0 from rfl]
      simp only [Reading.ofStamp, Reading.mk.injEq, Date.mk.injEq, and_true]
      omega
  rw [hreading, hmilli]

/-- What callers may name is accepted. -/
theorem parse_of_isValid (h : t.IsValid) : parse t.text = .ok t := by
  rw [parse, ofString_eq_ok_iff.2 ⟨rfl, h⟩]

/-- A timestamp that names a moment is of 17 digits, or of 14. -/
theorem isDigit_of_moment? (h : t.moment? = some m) :
    (∀ c ∈ t.text.toList, c.isDigit = true) ∧
      (t.text.toList.length = 17 ∨ t.text.toList.length = 14) := by
  unfold moment? at h
  dsimp only at h
  split at h
  · rename_i hds
    exact ⟨List.all_eq_true.1 hds.1, hds.2⟩
  · cases h

/-- What a timestamp of 17 or of 14 digits denotes has its number, in which the milliseconds that
it does not have are zero. -/
theorem stamp_of_moment? (h : t.moment? = some m) : m.IsCommon ∧ m.truncated = m ∧
    m.stamp = Text.value t.text.toList * Nat.pow 10 (17 - t.text.toList.length) := by
  obtain ⟨hd, hl⟩ := isDigit_of_moment? h
  rw [moment?_eq hd hl] at h
  have hlt := Text.value_lt hd
  have hN : Text.value t.text.toList * Nat.pow 10 (17 - t.text.toList.length) < Nat.pow 10 17 := by
    rcases hl with hl | hl <;> rw [hl] at hlt ⊢
    · exact (Nat.mul_one _).symm ▸ hlt
    · exact Nat.mul_lt_mul_of_pos_right hlt (show 0 < 1000 by decide)
  obtain ⟨hm, hstamp, htruncated⟩ := Moment.stamp_of_ofStamp? hN h
  exact ⟨hm, htruncated, hstamp⟩

/-- The timestamp of a moment that 17 digits denote are these digits; if it is 14, the milliseconds
follow. -/
theorem ofMoment_of_moment? (h : t.moment? = some m) :
    (t.text.toList.length = 17 → ofMoment m = t) ∧
      (t.text.toList.length = 14 → (ofMoment m).text = t.text ++ "000") := by
  obtain ⟨hd, -⟩ := isDigit_of_moment? h
  obtain ⟨hm, -, hstamp⟩ := stamp_of_moment? h
  rw [ofMoment_eq hm, hstamp]
  constructor
  · intro hl
    have hfixed := Text.fixed_value hd
    rw [hl] at hfixed ⊢
    rw [show Nat.pow 10 (17 - 17) = 1 from rfl, Nat.mul_one, hfixed, String.ofList_toList]
  · intro hl
    have hfixed := Text.fixed_value hd
    have hadd : Text.fixed 17 (Text.value t.text.toList * 1000 + 0) =
        Text.fixed 14 (Text.value t.text.toList) ++ Text.fixed 3 0 :=
      Text.fixed_add (w := 3) (show 0 < 1000 by decide)
    have hzeros : Text.fixed 3 0 = "000".toList := by decide
    rw [hl] at hfixed ⊢
    apply String.toList_inj.1
    rw [String.toList_ofList, String.toList_append, ← hzeros]
    rw [Nat.add_zero, hfixed] at hadd
    exact hadd

/-- **The timestamps of the years 0 to 9999 are 17 digits in the order of their moments,** to the
millisecond, and denote these. A timestamp of 17 digits that denotes a moment is the timestamp
of this moment, and one of 14 digits all of it but the milliseconds. -/
theorem chronological :
    (∀ m : Moment, m.IsCommon →
      (ofMoment m).text.length = 17 ∧ (∀ c ∈ (ofMoment m).text.toList, c.isDigit = true) ∧
      parse (ofMoment m).text = .ok (ofMoment m) ∧ (ofMoment m).moment? = some m.truncated) ∧
    (∀ m n : Moment, m.IsCommon → n.IsCommon →
      (ofMoment m < ofMoment n ↔ m.truncated < n.truncated)) ∧
    ∀ (t : Timestamp) (m : Moment), t.moment? = some m →
      (t.text.length = 17 → ofMoment m = t) ∧
      (t.text.length = 14 → (ofMoment m).text = t.text ++ "000") := by
  refine ⟨?_, fun m n hm hn => ofMoment_lt_ofMoment_iff hm hn, fun t m h => ofMoment_of_moment? h⟩
  intro m hm
  have hlt := m.stamp_lt hm
  have htext : (ofMoment m).text.toList = Text.fixed 17 m.stamp := by
    rw [ofMoment_eq hm, String.toList_ofList]
  have hd : ∀ c ∈ (ofMoment m).text.toList, c.isDigit = true := by
    intro c hc
    rw [htext] at hc
    exact Text.isDigit_of_mem_fixed hc
  have hl : (ofMoment m).text.toList.length = 17 := by rw [htext, Text.length_fixed]
  refine ⟨hl, hd, parse_of_isValid (isValid_ofMoment hm), ?_⟩
  rw [moment?_eq hd (.inl hl), hl, htext, Text.value_fixed hlt, ← Moment.ofStamp?_stamp hm]
  exact congrArg Moment.ofStamp? (Nat.mul_one _)

/-- Half a second into the leap second before 2017, and the second after it. -/
theorem chronological_of_leapSecond :
    ∃ m n w : Moment, m.IsCommon ∧ n.IsCommon ∧ ofMoment m = ⟨"20161231235960500"⟩ ∧
      ofMoment m < ofMoment n ∧ (ofMoment m).moment? = some m.truncated ∧
      ofMoment m.truncated = ofMoment m ∧ moment? ⟨"20161231235960"⟩ = some w ∧
      (ofMoment w).text = "20161231235960" ++ "000" := by
  let m : Moment := ⟨1483228799, 1500400000, by decide⟩
  let n : Moment := ⟨1483228800, 0, by decide⟩
  let w : Moment := ⟨1483228799, 1000000000, by decide⟩
  have hm : m.IsCommon := by decide +kernel
  have hn : n.IsCommon := by decide +kernel
  have hw : moment? ⟨"20161231235960"⟩ = some w := by decide +kernel
  obtain ⟨hread, horder, hwrite⟩ := chronological
  obtain ⟨hl, -, -, hmoment⟩ := hread m hm
  refine ⟨m, n, w, hm, hn, by decide +kernel, ?_, hmoment, ?_, hw, ?_⟩
  · exact (horder m n hm hn).2 (by decide +kernel)
  · exact (hwrite _ _ hmoment).1 hl
  · exact (hwrite _ _ hw).2 rfl

end Timestamp
end CommitTimeline
