/-
# Timestamps that moments give

The timestamp of a moment is one that callers may name if its year has four digits
(`Timestamp.isValid_ofMoment`). Outside 0 to 9999 the year begins with a sign, and then
the timestamp comes before all that callers may name (`Timestamp.ofMoment_lt`). So where
something is on a timeline, the timestamp of a new instant is one that callers may name,
or else the instant is refused (`Session.isValid_of_refusal?`).
-/

import CommitTimeline.Proofs.Session.Serial

namespace CommitTimeline

/-- The year has four digits. -/
def Moment.IsCommon (m : Moment) : Prop :=
  0 ≤ m.reading.date.year ∧ m.reading.date.year ≤ 9999

instance (m : Moment) : Decidable m.IsCommon :=
  inferInstanceAs (Decidable (_ ∧ _))

namespace Timestamp

/-- A digit is a letter or a digit. -/
theorem isAlphanum_of_isDigit {c : Char} (h : c.isDigit = true) : c.isAlphanum = true := by
  rw [Char.isAlphanum, h, Bool.or_true]

/-- A sign comes before letters and digits. -/
theorem sign_lt {c : Char} (h : c.isAlphanum = true) : '-' < c ∧ '+' < c := by
  have hrange := Table.toNat_of_isAlphanum h
  simp only [Char.lt_def, UInt32.lt_iff_toNat_lt]
  simp
  omega

/-- **Callers may name the timestamps of four-digit years.** -/
theorem isValid_ofMoment {m : Moment} (h : m.IsCommon) : (ofMoment m).IsValid := by
  have hy : yearText m.reading.date.year = Text.fixed 4 m.reading.date.year.toNat := if_pos h
  constructor
  · intro he
    have hl := congrArg List.length (congrArg String.toList he)
    simp [ofMoment, hy, Text.length_fixed] at hl
  · rw [List.all_eq_true]
    intro c hc
    simp only [ofMoment, hy, String.toList_ofList, List.mem_append] at hc
    apply isAlphanum_of_isDigit
    rcases hc with (((((hc | hc) | hc) | hc) | hc) | hc) | hc <;>
      exact Text.isDigit_of_mem_fixed hc

/-- **The timestamps of other years come before all that callers may name.** -/
theorem ofMoment_lt {m : Moment} (h : ¬m.IsCommon) {t : Timestamp} (ht : t.IsValid) :
    ofMoment m < t := by
  obtain ⟨c, cs, hc⟩ : ∃ c cs, t.text.toList = c :: cs :=
    List.exists_cons_of_ne_nil fun hn => ht.1 (String.toList_inj.1 hn)
  have hsign := sign_lt (List.all_eq_true.1 ht.2 c (by rw [hc]; exact List.mem_cons_self))
  have hy : yearText m.reading.date.year =
      (if m.reading.date.year < 0 then '-' else '+') ::
        Text.padded 4 m.reading.date.year.natAbs := if_neg h
  show (ofMoment m).text < t.text
  rw [String.lt_iff, hc, ofMoment]
  simp only [hy, String.toList_ofList, List.cons_append]
  refine List.cons_lt_cons_iff.2 (.inl ?_)
  split
  · exact hsign.1
  · exact hsign.2

/-- The successor of a valid timestamp is valid. -/
theorem isValid_successor {t : Timestamp} (h : t.IsValid) : t.successor.IsValid := by
  constructor
  · intro he
    have hl := congrArg List.length (congrArg String.toList he)
    simp [successor] at hl
  · rw [successor, String.toList_append, List.all_append, h.2]
    decide

end Timestamp

namespace Timeline

variable {t : Timeline} {m : Marker} {now : Moment}

/-- Callers may name every timestamp of the timeline. -/
def IsNamed (t : Timeline) : Prop :=
  ∀ e ∈ t.entries, e.timestamp.IsValid

/-- Timestamps stay valid when an entry of a valid timestamp is put. -/
theorem IsNamed.upsert (h : t.IsNamed) (hm : m.timestamp.IsValid) : (t.upsert m).IsNamed := by
  intro e he
  rcases mem_of_mem_upsert he with rfl | he
  · exact hm
  · exact h e he

/-- The next plan lists timestamps of the timeline. -/
theorem IsNamed.isReadable_nextPlan (h : t.IsNamed) : t.nextPlan.IsReadable := by
  intro timestamp ht
  obtain ⟨i, hi, rfl⟩ : ∃ i ∈ t.openDeltaCommits, i.timestamp = timestamp := by
    simpa [nextPlan, Plan.ofDeltaCommits] using ht
  obtain ⟨e, he, rfl⟩ := List.mem_map.1 (List.mem_of_mem_filter hi)
  exact h e he

/-- A new instant has a timestamp that callers may name, or one before the last. -/
theorem IsNamed.isValid_newTimestamp (ht : t.IsNamed) (hn : t.entries ≠ [] ∨ now.IsCommon) :
    (t.newTimestamp now).IsValid ∨ ∃ e ∈ t.entries, t.newTimestamp now < e.timestamp := by
  unfold newTimestamp
  dsimp only
  split
  · rename_i hlast
    rcases hn with hn | hn
    · exact absurd (entries_eq_nil hlast) hn
    · exact .inl (Timestamp.isValid_ofMoment hn)
  · rename_i last hlast
    obtain ⟨e, he, hlt⟩ : ∃ e ∈ t.entries, e.timestamp = last.timestamp := by
      rw [last?_all, instants, List.getLast?_map, Option.map_eq_some_iff] at hlast
      obtain ⟨e, he, rfl⟩ := hlast
      exact ⟨e, List.mem_of_getLast? he, rfl⟩
    -- what a moment gives is either named by callers or before every entry
    have hmoment : ∀ m, (Timestamp.ofMoment m).IsValid ∨
        ∃ e ∈ t.entries, Timestamp.ofMoment m < e.timestamp := by
      intro m
      by_cases hm : m.IsCommon
      · exact .inl (Timestamp.isValid_ofMoment hm)
      · exact .inr ⟨e, he, Timestamp.ofMoment_lt hm (ht e he)⟩
    split
    · exact hmoment now
    split
    · exact hmoment _
    · exact .inl (Timestamp.isValid_successor (hlt ▸ ht e he))

end Timeline

/-- A view that was loaded has timestamps that callers may name. -/
theorem Session.Loads.isNamed {table : Table} {t : Timeline} {own : List Exchange}
    (h : Loads table t own) : t.IsNamed := by
  obtain ⟨-, found, markers, -, hall, rfl⟩ := h
  intro e he
  obtain ⟨path, -, data, -, hd⟩ := exists_readAt hall (Timeline.mem_ofEntries.1 he)
  exact (Marker.isReadable_of_decode? hd).1

/-- **What is appended at a new timestamp has one that callers may name.** -/
theorem Session.isValid_of_refusal? {t : Timeline} {now : Moment} {instant : Instant}
    (ht : t.IsNamed) (hn : t.entries ≠ [] ∨ now.IsCommon)
    (hi : instant.timestamp = t.newTimestamp now) (hr : refusal? t instant = none) :
    instant.timestamp.IsValid := by
  rcases ht.isValid_newTimestamp hn with hv | ⟨e, he, hlt⟩
  · exact hi ▸ hv
  · have hgt := lt_of_refusal? hr e he
    rw [hi] at hgt
    exact absurd (Timestamp.lt_trans hlt hgt) (Timestamp.lt_irrefl _)

end CommitTimeline
