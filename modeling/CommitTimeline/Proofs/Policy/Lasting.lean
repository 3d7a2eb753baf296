/-
# A compaction that is due stays due

A compaction is due by three things: that none is outstanding, how many delta commits have
completed since the last one, and how much time has passed since the moment that time is counted
from (`Timeline.isDue_iff`). A delta commit that is appended, or completes, leaves this moment where
it is, and it takes none away that had completed.

Time is measured between readings of the clock, and a leap second counts only if one of the two
readings lies in it. So the time since a moment is not monotone: `Moment.SetsBack` lists the three
ways in which a later reading of the clock can measure less, and there are no others
(`Moment.since_lt_since_iff`). A compaction that is due stays due as time goes on unless it lapses
(`Timeline.Lapses`): it was due by the time alone, and less is measured then than it takes. It
lapses in no other case (`Timeline.IsDue.lasts`).
-/

import CommitTimeline.Proofs.Policy
import CommitTimeline.Proofs.Session.Coherence

namespace CommitTimeline
namespace Moment

variable {a a' b : Moment}

/-- The clock goes on from `a` to `a'`, and the time since `b` that it measures becomes less. -/
inductive SetsBack (b a a' : Moment) : Prop where
  /-- The clock enters a leap second, less than a second later. It does not count, as `b` shows
  a later time of day. -/
  | enters (second : a'.second = a.second) (common : ¬a.IsLeap) (leap : a'.IsLeap)
      (before : a.secondOfDay < b.secondOfDay) (nano : a'.nano < a.nano + 1000000000)
  /-- The clock leaves a leap second, less than a second later. It counted as far as it had gone,
  and does no longer. -/
  | leaves (second : a'.second = a.second + 1) (leap : a.IsLeap)
      (notBefore : b.secondOfDay ≤ a.secondOfDay)
      (uncounted : ¬(b.IsLeap ∧ b.secondOfDay = a.secondOfDay ∧ b.secondOfDay < a'.secondOfDay))
      (nano : a'.nano + 1000000000 < a.nano)
  /-- The leap second that `b` lies in counted. After midnight it does not, as the clock shows no
  later time of day than `b`, and less than a second has passed. -/
  | passes (leap : b.IsLeap) (after : b.secondOfDay < a.secondOfDay)
      (notAfter : a'.secondOfDay ≤ b.secondOfDay)
      (nano : a'.second * 1000000000 + a'.nano < (a.second + 1) * 1000000000 + a.nano)

/-- The time of day goes on with the seconds, and from midnight on again. -/
theorem secondOfDay_of_le (h : a.second ≤ a'.second) :
    a'.second = a.second ∧ a'.secondOfDay = a.secondOfDay ∨
      a'.second = a.second + 1 ∧
        (a'.secondOfDay = a.secondOfDay + 1 ∨ a.secondOfDay = 86399 ∧ a'.secondOfDay = 0) ∨
      a.second + 2 ≤ a'.second ∧
        (a.second + 60 ≤ a'.second ∨ a.secondOfDay + 2 ≤ a'.secondOfDay ∨ a'.secondOfDay < 59) := by
  unfold secondOfDay
  omega

/-- A leap second follows the last second of a minute. -/
theorem secondOfDay_mod (a : Moment) : 1000000000 ≤ a.nano → a.secondOfDay % 60 = 59 := by
  intro h
  have hvalid := a.valid.2.2.2 h
  unfold secondOfDay
  omega

/-- What the leap second of one of two readings counts between them. -/
theorem exists_leap (a b : Moment) :
    ∃ l : Int, a.since b = (a.second - b.second + l) * 1000000000 + ((a.nano : Int) - b.nano) ∧
      (l = 1 ∧ b.secondOfDay < a.secondOfDay ∧ 1000000000 ≤ b.nano ∨
        l = -1 ∧ a.secondOfDay < b.secondOfDay ∧ 1000000000 ≤ a.nano ∨
        l = 0 ∧ (b.secondOfDay < a.secondOfDay → b.nano < 1000000000) ∧
          (a.secondOfDay < b.secondOfDay → a.nano < 1000000000)) := by
  by_cases hb : b.secondOfDay < a.secondOfDay ∧ b.IsLeap
  · refine ⟨1, ?_, .inl ⟨rfl, hb⟩⟩
    simp only [since, if_pos hb]
  by_cases ha : a.secondOfDay < b.secondOfDay ∧ a.IsLeap
  · refine ⟨-1, ?_, .inr (.inl ⟨rfl, ha⟩)⟩
    simp only [since, if_neg hb, if_pos ha]
  · refine ⟨0, ?_, .inr (.inr ⟨rfl, ?_, ?_⟩)⟩
    · simp only [since, if_neg hb, if_neg ha]
    · exact fun h => Nat.lt_of_not_le fun hl => hb ⟨h, hl⟩
    · exact fun h => Nat.lt_of_not_le fun hl => ha ⟨h, hl⟩

/-- **A later reading measures less time in three cases,** and only in these. -/
theorem since_lt_since_iff (h : a ≤ a') : a'.since b < a.since b ↔ b.SetsBack a a' := by
  have ha := a.valid.2.2.1
  have ha' := a'.valid.2.2.1
  have hle : a.second ≤ a'.second ∧ (a'.second = a.second → a.nano ≤ a'.nano) := by
    change ¬(a'.second < a.second ∨ a'.second = a.second ∧ a'.nano < a.nano) at h
    omega
  have hclock := secondOfDay_of_le hle.1
  have hleap := a.secondOfDay_mod
  have hleap' := a'.secondOfDay_mod
  obtain ⟨l, hs, hl⟩ := a.exists_leap b
  obtain ⟨l', hs', hl'⟩ := a'.exists_leap b
  rw [hs, hs']
  constructor
  · intro hlt
    have hleaves : l' = l → 0 ≤ l → b.SetsBack a a' := by
      intro hll hpos
      have hsecond : a'.second = a.second + 1 := by omega
      have hnano : a'.nano + 1000000000 < a.nano := by omega
      refine .leaves hsecond ?_ ?_ ?_ hnano
      · show 1000000000 ≤ a.nano
        omega
      · omega
      · rintro ⟨hb, hsame, hless⟩
        change 1000000000 ≤ b.nano at hb
        omega
    -- for each reading the leap second of `b` counts, or its own one, or none
    rcases hl with ⟨rfl, hx, hb⟩ | ⟨rfl, hx, hna⟩ | ⟨rfl, hl⟩ <;>
      rcases hl' with ⟨rfl, hx', hb'⟩ | ⟨rfl, hx', hna'⟩ | ⟨rfl, hl'⟩
    · exact hleaves rfl (by decide)
    · omega
    · exact .passes hb hx (by omega) (by omega)
    · omega
    · omega
    · omega
    · omega
    · have hsame : a'.second = a.second := by omega
      have hbefore : a.secondOfDay < b.secondOfDay := by omega
      exact .enters hsame (Nat.not_le.2 (hl.2 hbefore)) hna' hbefore (by omega)
    · exact hleaves rfl (by decide)
  · rintro (⟨second, common, leap, before, nano⟩ | ⟨second, leap, notBefore, uncounted, nano⟩ |
      ⟨leap, after, notAfter, nano⟩)
    · change ¬1000000000 ≤ a.nano at common
      change 1000000000 ≤ a'.nano at leap
      omega
    · change 1000000000 ≤ a.nano at leap
      have huncounted : 1000000000 ≤ b.nano → b.secondOfDay = a.secondOfDay →
          a'.secondOfDay ≤ b.secondOfDay :=
        fun hb hsame => Nat.le_of_not_lt fun hless => uncounted ⟨hb, hsame, hless⟩
      omega
    · change 1000000000 ≤ b.nano at leap
      omega

end Moment

namespace Timeline

variable {t u : Timeline} {config : Config} {now : Moment}

/-- A compaction is due. -/
def IsDue (t : Timeline) (config : Config) (now : Moment) : Prop :=
  (t.decide config now).isSome = true

instance : Decidable (t.IsDue config now) :=
  inferInstanceAs (Decidable (_ = _))

/-- The moment that time is counted from. -/
def origin? (t : Timeline) : Option Moment :=
  t.reference?.bind fun i => t.moment? i.timestamp

/-- The time rule holds just if the threshold has passed since the instant that time is measured
from. -/
theorem exists_elapsed?_iff : (∃ d ∈ t.elapsed? now, config.maxDeltaTime ≤ d) ↔
    ∃ m ∈ t.origin?, (config.maxDeltaTime.nanoseconds : Int) ≤ now.since m := by
  have hbind : t.elapsed? now = t.origin?.bind fun m => Duration.ofNanoseconds? (now.since m) :=
    Option.bind_assoc .. |>.symm
  simp only [hbind, Option.mem_def, Option.bind_eq_some_iff, Duration.ofNanoseconds?_eq_some]
  constructor
  · rintro ⟨d, ⟨m, hm, hd⟩, hle⟩
    exact ⟨m, hm, hd ▸ Int.ofNat_le.2 hle⟩
  · rintro ⟨m, hm, hle⟩
    have hlt := now.since_lt m
    refine ⟨⟨(now.since m).toNat, by omega⟩, ⟨m, hm, ?_⟩, ?_⟩
    · exact Int.toNat_of_nonneg (by omega)
    · exact Int.le_toNat (by omega) |>.2 hle

/-- **When a compaction is due.** -/
theorem isDue_iff : t.IsDue config now ↔ (∀ k ∈ t.entries, ¬k.IsOutstanding) ∧
    (config.maxDeltaCommits.toNat ≤ t.freshCount ∨
      ∃ m ∈ t.origin?, (config.maxDeltaTime.nanoseconds : Int) ≤ now.since m) := by
  rw [IsDue, decide, ← pendingCompaction?_eq_none_iff, ← exists_elapsed?_iff,
    length_openDeltaCommits]
  dsimp only
  have hcount : config.maxDeltaCommits.toNat.ble t.freshCount = true ↔
      config.maxDeltaCommits.toNat ≤ t.freshCount := by
    rw [Nat.ble_eq]
  have htime : ((t.elapsed? now).filter fun e => config.maxDeltaTime ≤ e).isSome = true ↔
      ∃ d ∈ t.elapsed? now, config.maxDeltaTime ≤ d := by
    simp only [Option.isSome_iff_exists, Option.filter_eq_some_iff, decide_eq_true_eq,
      Option.mem_def]
  rw [← hcount, ← htime]
  cases t.pendingCompaction? with
  | some i => simp
  | none =>
    cases config.maxDeltaCommits.toNat.ble t.freshCount <;>
      cases (t.elapsed? now).filter fun e => config.maxDeltaTime ≤ e <;> simp

/-- **What keeps a compaction due:** no compaction becomes outstanding, no fewer delta commits
count, and time is counted from the same moment. -/
theorem IsDue.of_le (h : t.IsDue config now)
    (hnone : (∀ k ∈ t.entries, ¬k.IsOutstanding) → ∀ k ∈ u.entries, ¬k.IsOutstanding)
    (hcount : t.freshCount ≤ u.freshCount) (horigin : ∀ m ∈ t.origin?, m ∈ u.origin?) :
    u.IsDue config now := by
  obtain ⟨hfree, hdue⟩ := isDue_iff.1 h
  refine isDue_iff.2 ⟨hnone hfree, hdue.imp hcount.trans' ?_⟩
  rintro ⟨m, hm, hle⟩
  exact ⟨m, horigin m hm, hle⟩

section DeltaCommit

/-! A delta commit comes to the entries, in place of `old`: of nothing, or of delta commits that had
not completed. -/

variable {l old r : List Entry} {e : Entry} (ht : t.entries = l ++ (old ++ r))
  (hu : u.entries = l ++ e :: r) (hold : ∀ x ∈ old, x.IsUncommitted)
  (he : e.instant.action = .deltaCommit)

include ht hu

/-- After an entry is put there is nothing but this entry and what was there before. -/
theorem mem_of_mem_gained {k : Entry} (hk : k ∈ u.entries) : k = e ∨ k ∈ t.entries := by
  rw [hu, List.mem_append, List.mem_cons] at hk
  rw [ht, List.mem_append, List.mem_append]
  rcases hk with hk | rfl | hk
  · exact .inr (.inl hk)
  · exact .inl rfl
  · exact .inr (.inr (.inr hk))

include he in
/-- Where no compaction is outstanding, a delta commit that is put leaves none. -/
theorem not_isOutstanding_of_gained (hnone : ∀ k ∈ t.entries, ¬k.IsOutstanding) :
    ∀ k ∈ u.entries, ¬k.IsOutstanding := by
  intro k hk
  rcases mem_of_mem_gained ht hu hk with rfl | hk
  · rintro ⟨hc, -⟩
    cases he.symm.trans hc
  · exact hnone k hk

include hold he

/-- No delta commit is lost that counted. -/
theorem freshCount_le_of_gained : t.freshCount ≤ u.freshCount := by
  have hfresh : ∀ d, t.IsFresh d → u.IsFresh d := by
    rintro d ⟨hd, hlast⟩
    refine ⟨hd, fun k hk hc => ?_⟩
    rcases mem_of_mem_gained ht hu hk with rfl | hk
    · cases he.symm.trans hc.1
    · exact hlast k hk hc
  have hzero : old.countP (t.IsFresh ·) = 0 := by
    refine List.countP_eq_zero.2 fun x hx hf => ?_
    exact not_isUncommitted_of_isCommitted (of_decide_eq_true hf).1 (hold x hx)
  have hmono : ∀ m : List Entry, m.countP (t.IsFresh ·) ≤ m.countP (u.IsFresh ·) := fun m =>
    List.countP_mono_left fun d _ hd => decide_eq_true (hfresh d (of_decide_eq_true hd))
  calc t.freshCount
      = l.countP (t.IsFresh ·) + r.countP (t.IsFresh ·) := by
        rw [freshCount, ht, List.countP_append, List.countP_append, hzero, Nat.zero_add]
    _ ≤ l.countP (u.IsFresh ·) + (e :: r).countP (u.IsFresh ·) := by
        refine Nat.add_le_add (hmono l) ((hmono r).trans ?_)
        exact (List.sublist_cons_self e r).countP_le
    _ = u.freshCount := by rw [freshCount, hu, List.countP_append]

/-- The last compaction is the same. -/
theorem lastCompaction?_of_gained : u.lastCompaction? = t.lastCompaction? := by
  have hskip : ∀ m : List Entry, (∀ x ∈ m, x.instant.action = .deltaCommit) →
      (m.map (·.instant)).reverse.find? Filter.commits.completed.selects = none := by
    intro m hm
    rw [List.find?_eq_none]
    intro i hi
    obtain ⟨x, hx, rfl⟩ := List.mem_map.1 (List.mem_reverse.1 hi)
    rw [selects_commits]
    rintro ⟨hc, -⟩
    cases (hm x hx).symm.trans hc
  have hone := hskip [e] fun x hx => by rw [List.mem_singleton.1 hx, he]
  have hmany := hskip old fun x hx => (hold x hx).1
  rw [lastCompaction?, lastCompaction?, last?, last?, instants, instants, hu, ht,
    List.append_cons, List.append_assoc]
  simp only [List.map_append, List.reverse_append, List.append_assoc, List.find?_append, hone,
    hmany, Option.none_or]

/-- Time is counted from the same moment, if it is found at the same timestamp and gives the same
moment there. -/
theorem origin?_of_gained (hfirst : ∀ i, t.first? .all = some i →
      ∃ j, u.first? .all = some j ∧ j.timestamp = i.timestamp)
    (hmoment : ∀ k ∈ t.entries, u.moment? k.timestamp = t.moment? k.timestamp) :
    ∀ m ∈ t.origin?, m ∈ u.origin? := by
  intro m hm
  obtain ⟨i, hi, hm⟩ := Option.bind_eq_some_iff.1 hm
  obtain ⟨k, hk, rfl⟩ := exists_of_reference? hi
  rw [show k.instant.timestamp = k.timestamp from rfl, ← hmoment k hk.1] at hm
  rcases Option.or_eq_some_iff.1 hi with hlast | ⟨hnone, hi⟩
  · refine Option.bind_eq_some_iff.2 ⟨k.instant, Option.or_eq_some_iff.2 (.inl ?_), hm⟩
    rw [lastCompaction?_of_gained ht hu hold he, hlast]
  · obtain ⟨j, hj, hjk⟩ := hfirst _ hi
    refine Option.bind_eq_some_iff.2 ⟨j, Option.or_eq_some_iff.2 (.inr ⟨?_, hj⟩), hjk ▸ hm⟩
    rw [lastCompaction?_of_gained ht hu hold he, hnone]

end DeltaCommit

/-- **A delta commit that is appended leaves a compaction due.** -/
theorem IsDue.append {e : Entry} (h : t.IsDue config now) (he : e.IsUncommitted)
    (hnew : ∀ x ∈ t.entries, x.timestamp < e.timestamp) : (t.upsert e).IsDue config now := by
  have ht : t.entries = t.entries ++ ([] ++ []) := (List.append_nil _).symm
  have hu : (t.upsert e).entries = t.entries ++ [e] := upsert_of_lt hnew
  have hold : ∀ x ∈ ([] : List Entry), x.IsUncommitted := fun x hx => nomatch hx
  refine h.of_le (not_isOutstanding_of_gained ht hu he.1) (freshCount_le_of_gained ht hu hold he.1)
    (origin?_of_gained ht hu hold he.1 ?_ ?_)
  · intro i hi
    refine ⟨i, ?_, rfl⟩
    change (t.entries.map (·.instant)).find? _ = some i at hi
    show ((t.upsert e).entries.map (·.instant)).find? _ = some i
    rw [hu, List.map_append, List.find?_append, hi, Option.some_or]
  · intro k hk
    have hne : Decidable.decide (e.timestamp = k.timestamp) = false :=
      decide_eq_false (Timestamp.ne_of_lt (hnew k hk)).symm
    rw [moment?, moment?, requestedAt?, requestedAt?, find?, find?, hu, List.reverse_append,
      List.reverse_singleton, List.singleton_append, List.find?_cons, hne]

/-- What speaks for a timestamp is the last entry of it. -/
theorem exists_of_find?_eq_some {timestamp : Timestamp} {e : Entry}
    (h : t.find? timestamp = some e) :
    ∃ l r, t.entries = l ++ e :: r ∧ ∀ x ∈ r, e.timestamp < x.timestamp := by
  obtain ⟨ht, l, r, hlr, hl⟩ := List.find?_eq_some_iff_append.1 h
  have hentries : t.entries = r.reverse ++ e :: l.reverse := by
    rw [← List.reverse_reverse t.entries, hlr]
    simp
  refine ⟨_, _, hentries, fun x hx => ?_⟩
  have hsorted := t.sorted
  rw [hentries, List.pairwise_append, List.pairwise_cons] at hsorted
  refine Timestamp.lt_of_le_of_ne (hsorted.2.1.1 x hx) ?_
  have hne := hl x (List.mem_reverse.1 hx)
  rw [of_decide_eq_true ht]
  rintro rfl
  simp at hne

/-- An entry comes in place of the last one of its timestamp. -/
theorem put_of_last {l r : List Entry} {x e : Entry}
    (hl : (l ++ x :: r).Pairwise fun a b => a.timestamp ≤ b.timestamp)
    (hr : ∀ y ∈ r, x.timestamp < y.timestamp) (he : e.timestamp = x.timestamp) :
    put e (l ++ x :: r) = l ++ e :: r := by
  induction l with
  | nil => exact put_cons_of_eq he hr
  | cons y l ih =>
    rw [List.cons_append, List.pairwise_cons] at hl
    have hyx : y.timestamp ≤ e.timestamp := he ▸ hl.1 x (List.mem_append_right l List.mem_cons_self)
    rw [List.cons_append, put, if_neg (Timestamp.not_lt.2 hyx), if_neg, ih hl.2]
    · rfl
    · -- an entry of the same timestamp follows, as there is still `x`
      rintro ⟨hey, hne⟩
      cases l with
      | nil => exact hne x rfl he.symm
      | cons z l =>
        refine hne z rfl (Timestamp.le_antisymm ?_ ?_)
        · rw [List.cons_append, List.pairwise_cons] at hl
          exact he ▸ hl.2.1 x (List.mem_append_right l List.mem_cons_self)
        · exact hey ▸ hl.1 z (List.mem_append_left _ List.mem_cons_self)

/-- **A delta commit that completes leaves a compaction due.** -/
theorem IsDue.complete {e : Entry} (h : t.IsDue config now) (hfind : t.find? e.timestamp = some e)
    (he : e.IsUncommitted) (details : Option Details) :
    (t.upsert (e.after .completed details)).IsDue config now := by
  obtain ⟨l, r, hl, hr⟩ := exists_of_find?_eq_some hfind
  have ht : t.entries = l ++ ([e] ++ r) := hl
  have htime := e.timestamp_after .completed details
  have hu : (t.upsert (e.after .completed details)).entries =
      l ++ e.after .completed details :: r := by
    show put _ t.entries = _
    rw [hl]
    exact put_of_last (hl ▸ t.sorted) hr htime
  have hold : ∀ x ∈ [e], x.IsUncommitted := fun x hx => List.mem_singleton.1 hx ▸ he
  have hdelta : (e.after .completed details).instant.action = .deltaCommit :=
    Marker.action_after_eq_deltaCommit.2 he.1
  refine h.of_le (not_isOutstanding_of_gained ht hu hdelta)
    (freshCount_le_of_gained ht hu hold hdelta) (origin?_of_gained ht hu hold hdelta ?_ ?_)
  · intro i hi
    change (t.entries.map (·.instant)).find? _ = some i at hi
    show ∃ j, ((t.upsert (e.after .completed details)).entries.map (·.instant)).find? _ = some j ∧ _
    rw [ht] at hi
    rw [hu]
    cases l with
    | nil =>
      obtain rfl := Option.some.inj hi
      exact ⟨_, rfl, htime⟩
    | cons y l => exact ⟨i, hi, rfl⟩
  · intro k hk
    -- the entry that speaks for a timestamp was requested at the same time as before
    have hrequested : (t.upsert (e.after .completed details)).requestedAt? k.timestamp =
        t.requestedAt? k.timestamp := by
      rw [requestedAt?, requestedAt?, find?, find?, hu, hl]
      simp only [List.reverse_append, List.reverse_cons, List.find?_append, List.find?_cons,
        List.find?_nil, htime]
      cases r.reverse.find? fun e => Decidable.decide (e.timestamp = k.timestamp) with
      | some x => rfl
      | none =>
        cases Decidable.decide (e.timestamp = k.timestamp) <;> rfl
    rw [moment?, moment?, hrequested]

/-- A compaction stays due if the thresholds are lowered. -/
theorem IsDue.lower {config' : Config} (h : t.IsDue config now)
    (hcount : config'.maxDeltaCommits ≤ config.maxDeltaCommits)
    (htime : config'.maxDeltaTime ≤ config.maxDeltaTime) : t.IsDue config' now := by
  obtain ⟨hnone, hdue⟩ := isDue_iff.1 h
  refine isDue_iff.2 ⟨hnone, hdue.imp (fun hle => ?_) ?_⟩
  · exact (UInt32.le_iff_toNat_le.1 hcount).trans hle
  · rintro ⟨m, hm, hle⟩
    exact ⟨m, hm, Int.le_trans (Int.ofNat_le.2 htime) hle⟩

/-- What was due by the time alone is not due any more: too few delta commits have completed, a
later reading of the clock sets the time back, and less is measured then than it takes. -/
def Lapses (t : Timeline) (config : Config) (now now' : Moment) : Prop :=
  t.freshCount < config.maxDeltaCommits.toNat ∧
    ∃ m ∈ t.origin?, m.SetsBack now now' ∧ now'.since m < config.maxDeltaTime.nanoseconds

/-- A compaction stays due as time goes on if it does not lapse, and only then. -/
theorem IsDue.later_iff {now' : Moment} (h : t.IsDue config now) (hle : now ≤ now') :
    t.IsDue config now' ↔ ¬t.Lapses config now now' := by
  obtain ⟨hnone, hdue⟩ := isDue_iff.1 h
  rw [isDue_iff]
  constructor
  · rintro ⟨-, hcount' | ⟨m', hm', htime'⟩⟩ ⟨hcount, m, hm, -, hless⟩
    · exact Nat.not_lt.2 hcount' hcount
    · obtain rfl := Option.mem_unique hm hm'
      exact Int.not_lt.2 htime' hless
  · intro hlapses
    refine ⟨hnone, or_iff_not_imp_left.2 fun hcount => ?_⟩
    obtain ⟨m, hm, htime⟩ := hdue.resolve_left hcount
    refine ⟨m, hm, Int.not_lt.1 fun hless => hlapses ⟨Nat.not_le.1 hcount, m, hm, ?_, hless⟩⟩
    exact (Moment.since_lt_since_iff hle).1 (Int.lt_of_lt_of_le hless htime)

/-- **A compaction that is due stays due:** as time goes on, if and only if it does not lapse; when
one more delta commit is appended behind all instants; when a delta commit completes that had not;
and when the thresholds are lowered. -/
theorem IsDue.lasts (h : t.IsDue config now) :
    (∀ now', now ≤ now' → (t.IsDue config now' ↔ ¬t.Lapses config now now')) ∧
    (∀ e : Entry, e.IsUncommitted → (∀ x ∈ t.entries, x.timestamp < e.timestamp) →
      (t.upsert e).IsDue config now) ∧
    (∀ (e : Entry) (details : Option Details), t.find? e.timestamp = some e → e.IsUncommitted →
      (t.upsert (e.after .completed details)).IsDue config now) ∧
    ∀ config' : Config, config'.maxDeltaCommits ≤ config.maxDeltaCommits →
      config'.maxDeltaTime ≤ config.maxDeltaTime → t.IsDue config' now :=
  ⟨fun _ hle => h.later_iff hle, fun _ he hnew => h.append he hnew,
    fun _ details hfind he => h.complete hfind he details,
    fun _ hcount htime => h.lower hcount htime⟩

/-- Half a day after a delta commit was requested in a leap second a compaction is due. Midnight
sets the time back, and it is due still; and so it is with one more delta commit, when the first
one completes, and where half an hour is enough. -/
theorem IsDue.lasts_of_request :
    ∃ (t : Timeline) (e e' : Entry) (config config' : Config) (now midnight : Moment),
      t.find? e.timestamp = some e ∧ t.IsDue config now ∧ now ≤ midnight ∧
      (∃ m ∈ t.origin?, m.SetsBack now midnight) ∧ t.IsDue config midnight ∧
      (t.upsert e').IsDue config now ∧ (t.upsert (e.after .completed none)).IsDue config now ∧
      t.IsDue config' now := by
  let e : Entry := ⟨.requested ⟨"20240101115960000"⟩ .deltaCommit, .empty, none⟩
  let e' : Entry := ⟨.requested ⟨"20240101120000000"⟩ .deltaCommit, .empty, none⟩
  let config : Config := ⟨false, 5, .ofSeconds 3600⟩
  let now : Moment := ⟨1704153599, 999999999, by decide⟩
  let midnight : Moment := ⟨1704153600, 0, by decide⟩
  have hdue : (empty.upsert e).IsDue config now := by decide +kernel
  have hle : now ≤ midnight := by decide
  have hfind : (empty.upsert e).find? e.timestamp = some e := by decide +kernel
  have horigin : (empty.upsert e).origin? = some ⟨1704110399, 1000000000, by decide⟩ := by
    decide +kernel
  have hback : Moment.SetsBack ⟨1704110399, 1000000000, by decide⟩ now midnight :=
    (Moment.since_lt_since_iff hle).1 (by decide +kernel)
  obtain ⟨hlater, happend, hcomplete, hlower⟩ := hdue.lasts
  refine ⟨_, e, e', config, ⟨false, 5, .ofSeconds 1800⟩, now, midnight, hfind, hdue, hle,
    ⟨_, horigin, hback⟩, (hlater midnight hle).2 ?_, happend e' ⟨rfl, by decide⟩
    (by decide +kernel), hcomplete e none hfind ⟨rfl, by decide⟩, hlower _ (by decide) (by decide)⟩
  rintro ⟨-, m, hm, -, hless⟩
  obtain rfl := Option.some.inj (horigin.symm.trans hm)
  revert hless
  decide +kernel

/-- A delta commit was requested in the leap second before noon. In the last nanosecond before the
next midnight this leap second counts, and at midnight it does not, so that less time has passed. -/
theorem not_lasts :
    ¬∀ (table : Table) (t : Timeline) (s : Storage.Objects), Session.Reaches table .empty t s →
      ∀ (config : Config) (now now' : Moment), now ≤ now' → t.IsDue config now →
        t.IsDue config now' := by
  intro h
  let append : Operation :=
    .append (.requested ⟨"20240101115960000"⟩ .deltaCommit) .empty none
  have happend := Calm.plain.leads_run ((append.call .sample).program .empty) ⟨.empty, []⟩
  let config : Config := ⟨false, 5, ⟨43200500000000, by decide⟩⟩
  let now : Moment := ⟨1704153599, 999999999, by decide⟩
  let midnight : Moment := ⟨1704153600, 0, by decide⟩
  have hdue : (((append.call .sample).program .empty).run Calm.plain.answer
      ⟨.empty, []⟩).1.2.IsDue config now := by
    decide +kernel
  have hnot : ¬(((append.call .sample).program .empty).run Calm.plain.answer
      ⟨.empty, []⟩).1.2.IsDue config midnight := by
    decide +kernel
  have hsession : append.IsSession := trivial
  have hregular : append.IsRegular := ⟨by decide, trivial⟩
  exact hnot (h _ _ _ ((Session.Reaches.nothing .sample).calls hsession hregular happend) config now
    midnight (by decide) hdue)

end Timeline
end CommitTimeline
