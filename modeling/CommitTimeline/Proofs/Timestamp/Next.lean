/-
# The timestamp of a new instant

A new instant takes the timestamp of its moment, or if that is not after the last one, one made
from the last: the timestamp of the next millisecond, or the successor of a timestamp that
denotes no moment. Each of them comes after the last one (`Timestamp.lt_ofMoment_iff`,
`Timestamp.lt_successor`), but for one case: the last timestamp has 17 digits and the last
millisecond of the year 9999, so the next one has a sign in front.

The case is `Timeline.IsExhausted`, and `Timeline.lt_newTimestamp_iff` says that it is the only
one.
-/

import CommitTimeline.Proofs.Timestamp.Stamp

namespace CommitTimeline

namespace Moment

variable {m n : Moment}

/-- The first day of the year 10000, by its number. -/
theorem ofNumber_yearTenThousand : Date.ofNumber 2932897 = ⟨10000, 1, 1⟩ := by
  decide

/-- The first day of the year 10000 is written with nine digits. -/
theorem key_yearTenThousand : (Date.ofNumber 2932897).key = 100000101 := by
  rw [ofNumber_yearTenThousand]
  rfl

/-- The years 0 to 9999 are over by then. -/
theorem IsCommon.day_lt (h : m.IsCommon) : m.second / 86400 < 2932897 := by
  by_contra hday
  have hkey : (Date.ofNumber 2932897).key ≤ m.reading.date.key :=
    Date.key_le_key (Int.not_lt.1 hday)
  obtain ⟨-, hmonth, -, hday⟩ := m.date_lt
  have hy := h.2
  rw [key_yearTenThousand, Date.key] at hkey
  omega

/-- What comes later, but before the year 10000, is in one of these years as well. -/
theorem IsCommon.of_le (h : m.IsCommon) (hle : m.second ≤ n.second)
    (hn : n.second / 86400 < 2932897) : n.IsCommon := by
  have hday : m.second / 86400 ≤ n.second / 86400 := by omega
  have hkey : m.reading.date.key ≤ n.reading.date.key := Date.key_le_key hday
  have hfirst : n.reading.date.key < (Date.ofNumber 2932897).key := Date.key_lt_key hn
  obtain ⟨hm1, -, hd1, -⟩ := m.date_lt
  obtain ⟨hm2, hm2', hd2, hd2'⟩ := n.date_lt
  obtain ⟨hy, -⟩ := h
  rw [key_yearTenThousand] at hfirst
  unfold Date.key at hkey hfirst
  constructor <;> omega

/-- **The next millisecond is later,** and leaves the year 9999 only from its last one. -/
theorem exists_next (hm : m.IsCommon) (ht : m.truncated = m) :
    ∃ n, m.later? 1 = some n ∧ m < n.truncated ∧
      (n.IsCommon ∨ n.reading.date.year = 10000 ∧ m.reading.nano / 1000000 = 999) := by
  have hday := hm.day_lt
  have hwhole : m.milli * 1000000 = m.nano := congrArg Moment.nano ht
  obtain ⟨hlow, hhigh, hnano, hleap⟩ := m.valid
  have hsome : ∀ second nano, IsMoment second nano → m.second ≤ second →
      m.second < second ∨ m.milli < nano / 1000000 →
      second / 86400 < 2932897 ∨ second / 86400 = 2932897 ∧ m.nano % 1000000000 / 1000000 = 999 →
      ∃ n, of? second nano = some n ∧ m < n.truncated ∧
        (n.IsCommon ∨ n.reading.date.year = 10000 ∧ m.reading.nano / 1000000 = 999) := by
    intro second nano hv hle hlt hyear
    refine ⟨⟨second, nano, hv⟩, dif_pos hv, ?_, ?_⟩
    · show m.second < second ∨ m.second = second ∧ m.nano < nano / 1000000 * 1000000
      omega
    · rcases hyear with hyear | ⟨hyear, hmilli⟩
      · exact .inl (hm.of_le hle hyear)
      · refine .inr ⟨?_, hmilli⟩
        show (Date.ofNumber (second / 86400)).year = 10000
        rw [hyear, ofNumber_yearTenThousand]
  unfold later?
  dsimp only
  split
  · rename_i h
    have hl : 1000000000 ≤ m.nano := h.1
    refine hsome _ _ ⟨hlow, hhigh, h.2, fun _ => hleap hl⟩ (Int.le_refl _) (.inr ?_) (.inl hday)
    omega
  · rename_i h
    have h : ¬(1000000000 ≤ m.nano ∧ m.nano + 1 * 1000000 < 2000000000) := h
    refine hsome _ _ ⟨?_, ?_, ?_, ?_⟩ ?_ ?_ ?_
    all_goals omega

end Moment

namespace Timestamp

variable {t : Timestamp} {m n : Moment}

/-- A timestamp is before every longer one that begins with it. -/
theorem lt_append (t : Timestamp) (c : Char) (cs : List Char) :
    t < ⟨t.text ++ String.ofList (c :: cs)⟩ := by
  show t.text < t.text ++ String.ofList (c :: cs)
  rw [String.lt_iff, String.toList_append, String.toList_ofList]
  have h : t.text.toList ++ [] < t.text.toList ++ c :: cs :=
    List.append_left_lt (List.nil_lt_cons c cs)
  rwa [List.append_nil] at h

/-- **The successor comes after a timestamp.** -/
theorem lt_successor (t : Timestamp) : t < t.successor :=
  t.lt_append '0' []

/-- **The timestamp of the next millisecond comes after that of a moment,** unless this has 17
digits and the next millisecond lies in the year 10000. -/
theorem lt_ofMoment_iff (h : t.moment? = some m) (hn : m.later? 1 = some n) :
    t < ofMoment n ↔ ¬(t.text.length = 17 ∧ n.reading.date.year = 10000) := by
  obtain ⟨hd, hl⟩ := isDigit_of_moment? h
  obtain ⟨hm, htruncated, hstamp⟩ := stamp_of_moment? h
  obtain ⟨hlong, hshort⟩ := ofMoment_of_moment? h
  obtain ⟨n', hn', hlt, hyear⟩ := Moment.exists_next hm htruncated
  obtain rfl : n = n' := Option.some.inj (hn.symm.trans hn')
  rcases hyear with hcommon | ⟨hyear, hmilli⟩
  · have hle : t ≤ ofMoment m := by
      rcases hl with hl | hl
      · rw [hlong hl]
        exact le_refl t
      · have hm : ofMoment m = ⟨t.text ++ "000"⟩ := congrArg mk (hshort hl)
        exact hm ▸ le_of_lt (t.lt_append '0' ['0', '0'])
    have hnext : ofMoment m < ofMoment n :=
      (ofMoment_lt_ofMoment_iff hm hcommon).2 (htruncated.symm ▸ hlt)
    refine iff_of_true (lt_of_le_of_lt hle hnext) ?_
    rintro ⟨-, hy⟩
    have := hcommon.2
    omega
  · have hlen : t.text.length = 17 := by
      refine hl.resolve_right fun hl => ?_
      have hzero := (Moment.ofStamp_stamp hm).2
      rw [hstamp, hl, hmilli] at hzero
      have hmod := Nat.mul_mod_left (Text.value t.text.toList) 1000
      exact absurd (hmod.symm.trans hzero) (by decide)
    refine iff_of_false (not_lt.2 (le_of_lt (ofMoment_lt ?_ ⟨?_, ?_⟩))) (not_not.2 ⟨hlen, hyear⟩)
    · rintro ⟨-, hy⟩
      omega
    · intro he
      rw [he] at hlen
      cases hlen
    · exact List.all_eq_true.2 fun c hc => isAlphanum_of_isDigit (hd c hc)

end Timestamp

namespace Timeline

variable {t : Timeline} {now : Moment}

/-- The last timestamp has 17 digits and denotes the last millisecond of the year 9999, and the
moment is not after it. -/
def IsExhausted (t : Timeline) (now : Moment) : Prop :=
  ∃ last m next, t.last? .all = some last ∧ ¬last.timestamp < Timestamp.ofMoment now ∧
    last.timestamp.text.length = 17 ∧ last.timestamp.moment? = some m ∧
    m.later? 1 = some next ∧ next.reading.date.year = 10000

/-- Where something is on the timeline, what is later than its last timestamp is later than all. -/
theorem lt_iff_of_last? {last : Instant} (h : t.last? .all = some last) {timestamp : Timestamp} :
    (∀ e ∈ t.entries, e.timestamp < timestamp) ↔ last.timestamp < timestamp := by
  constructor
  · intro hall
    obtain ⟨e, he, rfl, -⟩ := exists_of_last? h
    exact hall e he
  · intro hlt e he
    exact Timestamp.lt_of_le_of_lt (le_of_last?_all h he) hlt

/-- **A new timestamp comes after all others,** in all cases but one. -/
theorem lt_newTimestamp_iff :
    (∀ e ∈ t.entries, e.timestamp < t.newTimestamp now) ↔ ¬t.IsExhausted now := by
  unfold newTimestamp
  dsimp only
  split
  · rename_i hlast
    refine iff_of_true ?_ ?_
    · intro e he
      rw [entries_eq_nil hlast] at he
      cases he
    · rintro ⟨last, m, next, hlast', -⟩
      rw [hlast] at hlast'
      cases hlast'
  rename_i last hlast
  rw [lt_iff_of_last? hlast]
  -- of which timestamp and which moment the case speaks
  have hcase : t.IsExhausted now ↔ ¬last.timestamp < Timestamp.ofMoment now ∧
      last.timestamp.text.length = 17 ∧ ∃ next,
        last.timestamp.moment?.bind (·.later? 1) = some next ∧ next.reading.date.year = 10000 := by
    simp only [Option.bind_eq_some_iff]
    constructor
    · rintro ⟨last', m, next, hlast', hnow, hl, hm, hnext, hyear⟩
      obtain rfl := Option.some.inj (hlast.symm.trans hlast')
      exact ⟨hnow, hl, next, ⟨m, hm, hnext⟩, hyear⟩
    · rintro ⟨hnow, hl, next, ⟨m, hm, hnext⟩, hyear⟩
      exact ⟨last, m, next, hlast, hnow, hl, hm, hnext, hyear⟩
  rw [hcase]
  split
  · rename_i hnow
    exact iff_of_true hnow fun h => h.1 hnow
  rename_i hnow
  split
  · rename_i next hnext
    obtain ⟨m, hm, hlater⟩ := Option.bind_eq_some_iff.1 hnext
    rw [Timestamp.lt_ofMoment_iff hm hlater]
    refine not_congr ⟨fun h => ⟨hnow, h.1, next, hnext, h.2⟩, ?_⟩
    rintro ⟨-, hl, next', hnext', hyear⟩
    obtain rfl := Option.some.inj (hnext.symm.trans hnext')
    exact ⟨hl, hyear⟩
  · rename_i hnext
    refine iff_of_true last.timestamp.lt_successor ?_
    rintro ⟨-, -, next, hnext', -⟩
    rw [hnext] at hnext'
    cases hnext'

example : (empty.upsert ⟨.requested ⟨"99991231235959999"⟩ .deltaCommit, .empty, none⟩).newTimestamp
    ⟨0, 0, by decide⟩ = ⟨"+100000101000000000"⟩ := by
  decide +kernel

end Timeline
end CommitTimeline
