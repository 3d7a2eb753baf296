/-
# What the policy decides

`Timeline.Decides` says when a compaction is due in terms of what is on the timeline, wherever it
stands there: none is due while one is outstanding; otherwise it is if enough delta commits have
completed that are later than every completed compaction, or if enough time has passed since
the latest of these, or since the earliest instant where there are none.

The policy gets there by scans of the sorted entries from both ends, and looks up when an instant
was requested. On a strict timeline it decides the same (`Timeline.decide_iff`). And as none of the
conditions speaks of delta commits that have not completed, these do not matter, but for
the first instant (`Timeline.Agrees.decides`).
-/

import CommitTimeline.Proofs.Compaction.Partition
import CommitTimeline.Proofs.Time.Elapsed

namespace CommitTimeline

/-- A delta commit that is requested or in flight. -/
def Marker.IsUncommitted (m : Marker) : Prop :=
  m.instant.action = .deltaCommit ∧ m.instant.state ≠ .completed

instance (m : Marker) : Decidable m.IsUncommitted :=
  inferInstanceAs (Decidable (_ ∧ _))

/-- A duration of some nanoseconds is this many. -/
theorem Duration.ofNanoseconds?_eq_some {n : Int} {d : Duration} :
    ofNanoseconds? n = some d ↔ (d.nanoseconds : Int) = n := by
  obtain ⟨k, hk⟩ := d
  unfold ofNanoseconds?
  constructor
  · intro h
    split at h
    · split at h
      · have := congrArg nanoseconds (Option.some.inj h)
        dsimp only at this ⊢
        omega
      · cases h
    · cases h
  · rintro rfl
    have hb : (k : Int).toNat < UInt64.size * 1000000000 := hk
    rw [dif_pos hb, if_pos (Int.natCast_nonneg k)]
    rfl

namespace Timeline

variable {t u : Timeline} {config : Config} {now : Moment} {e : Entry} {i : Instant}
  {r : Option Reason} {n : Nat}

/-- The delta commit has completed and is later than every completed compaction. -/
def IsFresh (t : Timeline) (d : Entry) : Prop :=
  d.IsCommitted ∧ ∀ k ∈ t.entries, k.IsCompacted → k.timestamp < d.timestamp

instance (d : Entry) : Decidable (t.IsFresh d) :=
  inferInstanceAs (Decidable (_ ∧ _))

/-- The number of completed delta commits that are later than every completed compaction. -/
def freshCount (t : Timeline) : Nat :=
  t.entries.countP (t.IsFresh ·)

/-- The time that has passed is counted from this entry: the latest of the completed compactions, or
the earliest entry where there are none. -/
def IsReference (t : Timeline) (e : Entry) : Prop :=
  e ∈ t.entries ∧
    ((e.IsCompacted ∧ ∀ k ∈ t.entries, k.IsCompacted → k.timestamp ≤ e.timestamp) ∨
      (∀ k ∈ t.entries, ¬k.IsCompacted) ∧ ∀ x ∈ t.entries, e.timestamp ≤ x.timestamp)

/-- So many nanoseconds have passed since the moment that the timestamp of the reference denotes, or
else since it was requested. -/
def HasElapsed (t : Timeline) (now : Moment) (n : Nat) : Prop :=
  ∃ e m, t.IsReference e ∧ e.timestamp.moment?.or e.requestedAt = some m ∧ (n : Int) = now.since m

/-- When a compaction is due, and why. -/
inductive Decides (t : Timeline) (config : Config) (now : Moment) : Option Reason → Prop where
  | outstanding {k : Entry} (hk : k ∈ t.entries) (ho : k.IsOutstanding) : Decides t config now none
  | both {elapsed : Duration} (hnone : ∀ k ∈ t.entries, ¬k.IsOutstanding)
      (hcount : config.maxDeltaCommits.toNat ≤ t.freshCount)
      (helapsed : t.HasElapsed now elapsed.nanoseconds) (htime : config.maxDeltaTime ≤ elapsed) :
      Decides t config now (some (.both t.freshCount elapsed))
  | deltaCommits (hnone : ∀ k ∈ t.entries, ¬k.IsOutstanding)
      (hcount : config.maxDeltaCommits.toNat ≤ t.freshCount)
      (htime : ∀ n, t.HasElapsed now n → n < config.maxDeltaTime.nanoseconds) :
      Decides t config now (some (.deltaCommits t.freshCount))
  | elapsedTime {elapsed : Duration} (hnone : ∀ k ∈ t.entries, ¬k.IsOutstanding)
      (hcount : t.freshCount < config.maxDeltaCommits.toNat)
      (helapsed : t.HasElapsed now elapsed.nanoseconds) (htime : config.maxDeltaTime ≤ elapsed) :
      Decides t config now (some (.elapsedTime elapsed))
  | neither (hnone : ∀ k ∈ t.entries, ¬k.IsOutstanding)
      (hcount : t.freshCount < config.maxDeltaCommits.toNat)
      (htime : ∀ n, t.HasElapsed now n → n < config.maxDeltaTime.nanoseconds) :
      Decides t config now none

/-- None is pending just if none is outstanding. -/
theorem pendingCompaction?_eq_none_iff :
    t.pendingCompaction? = none ↔ ∀ e ∈ t.entries, ¬e.IsOutstanding :=
  ⟨fun h _ he => not_isOutstanding_of_pendingCompaction? h he, pendingCompaction?_eq_none⟩

/-- Where there is no last compaction, none has completed. -/
theorem lastCompaction?_eq_none_iff :
    t.lastCompaction? = none ↔ ∀ k ∈ t.entries, ¬k.IsCompacted := by
  rw [lastCompaction?, last?, List.find?_eq_none]
  simp only [List.mem_reverse, instants, List.forall_mem_map, selects_commits]

/-- **The open delta commits are those later than every completed compaction.** -/
theorem length_openDeltaCommits : t.openDeltaCommits.length = t.freshCount := by
  rw [openDeltaCommits, deltaCommitsAfter, instants, List.filter_map, List.length_map,
    ← List.countP_eq_length_filter, freshCount]
  refine List.countP_congr ?_
  intro d hd
  rw [decide_eq_true_iff]
  cases hlast : t.lastCompaction? with
  | none =>
    have hafter : ∀ k ∈ t.entries, k.IsCompacted → k.timestamp < d.timestamp :=
      fun k hk hc => absurd hc (lastCompaction?_eq_none_iff.1 hlast k hk)
    simp only [Function.comp_apply, Option.map_none, Bool.and_true, Bool.and_eq_true,
      decide_eq_true_eq, Instant.isCompleted]
    exact (and_iff_left hafter).symm
  | some last =>
    obtain ⟨e, he, rfl, hc, hmax⟩ := exists_of_lastCompaction? hlast
    have hafter : (∀ k ∈ t.entries, k.IsCompacted → k.timestamp < d.timestamp) ↔
        e.timestamp < d.timestamp :=
      ⟨fun h => h e he hc, fun hlt k hk hck => Timestamp.lt_of_le_of_lt (hmax k hk hck) hlt⟩
    simp only [Function.comp_apply, Option.map_some, Bool.and_eq_true, decide_eq_true_eq,
      Instant.isCompleted]
    exact and_congr_right fun _ => hafter.symm

/-- There is one reference. -/
theorem IsReference.unique (ht : t.IsStrict) {x : Entry} (he : t.IsReference e)
    (hx : t.IsReference x) : x = e := by
  obtain ⟨he, hcase⟩ := he
  obtain ⟨hx, hcase'⟩ := hx
  refine eq_of_timestamp_eq ht hx he ?_
  rcases hcase with ⟨hc, hmax⟩ | ⟨hnone, hmin⟩ <;> rcases hcase' with ⟨hc', hmax'⟩ | ⟨hnone', hmin'⟩
  · exact Timestamp.le_antisymm (hmax x hx hc') (hmax' e he hc)
  · exact absurd hc (hnone' e he)
  · exact absurd hc' (hnone x hx)
  · exact Timestamp.le_antisymm (hmin' e he) (hmin x hx)

/-- The reference that is found is one. -/
theorem exists_of_reference? (h : t.reference? = some i) :
    ∃ e, t.IsReference e ∧ e.instant = i := by
  rcases Option.or_eq_some_iff.1 h with h | ⟨hnone, h⟩
  · obtain ⟨e, he, hi, hc, hmax⟩ := exists_of_lastCompaction? h
    exact ⟨e, ⟨he, .inl ⟨hc, hmax⟩⟩, hi⟩
  · obtain ⟨e, he, hi, -, hmin⟩ := exists_of_first? h
    exact ⟨e, ⟨he, .inr ⟨lastCompaction?_eq_none_iff.1 hnone, fun x hx => hmin x hx rfl⟩⟩, hi⟩

/-- **Time is counted from the reference.** -/
theorem IsReference.reference?_eq (ht : t.IsStrict) (h : t.IsReference e) :
    t.reference? = some e.instant := by
  cases hr : t.reference? with
  | none =>
    obtain ⟨-, hfirst⟩ := Option.or_eq_none_iff.1 hr
    exact absurd rfl (List.find?_eq_none.1 hfirst e.instant (List.mem_map_of_mem h.1))
  | some i =>
    obtain ⟨x, hx, rfl⟩ := exists_of_reference? hr
    rw [h.unique ht hx]

/-- The moment of an entry is found at its timestamp. -/
theorem moment?_of_mem (ht : t.IsStrict) (he : e ∈ t.entries) :
    t.moment? e.timestamp = e.timestamp.moment?.or e.requestedAt := by
  rw [moment?, requestedAt?, find?_of_mem ht he, Option.bind_some]

/-- The time that is measured is the time since the reference. -/
theorem elapsed?_eq_some (ht : t.IsStrict) {d : Duration} :
    t.elapsed? now = some d ↔ t.HasElapsed now d.nanoseconds := by
  have hbind : t.elapsed? now = t.reference?.bind fun reference =>
      (t.moment? reference.timestamp).bind fun m => Duration.ofNanoseconds? (now.since m) := rfl
  rw [hbind]
  simp only [Option.bind_eq_some_iff, Duration.ofNanoseconds?_eq_some]
  constructor
  · rintro ⟨i, hr, m, hm, hd⟩
    obtain ⟨e, he, rfl⟩ := exists_of_reference? hr
    exact ⟨e, m, he, (moment?_of_mem ht he.1).symm.trans hm, hd⟩
  · rintro ⟨e, m, he, hm, hd⟩
    exact ⟨e.instant, he.reference?_eq ht, m, (moment?_of_mem ht he.1).trans hm, hd⟩

/-- What has elapsed is a duration. -/
theorem HasElapsed.exists_duration (h : t.HasElapsed now n) :
    ∃ d : Duration, d.nanoseconds = n := by
  obtain ⟨e, m, -, -, hn⟩ := h
  have hlt := now.since_lt m
  exact ⟨⟨n, by omega⟩, rfl⟩

/-- Enough time has passed just if the search finds this. -/
theorem filter_elapsed?_eq_some (ht : t.IsStrict) {d : Duration} :
    ((t.elapsed? now).filter fun e => config.maxDeltaTime ≤ e) = some d ↔
      t.HasElapsed now d.nanoseconds ∧ config.maxDeltaTime ≤ d := by
  rw [Option.filter_eq_some_iff, elapsed?_eq_some ht, decide_eq_true_iff]

/-- No time that is measured reaches the threshold just if the time since the reference does not. -/
theorem filter_elapsed?_eq_none (ht : t.IsStrict) :
    ((t.elapsed? now).filter fun e => config.maxDeltaTime ≤ e) = none ↔
      ∀ n, t.HasElapsed now n → n < config.maxDeltaTime.nanoseconds := by
  rw [Option.eq_none_iff_forall_ne_some]
  constructor
  · intro h n hn
    obtain ⟨d, rfl⟩ := hn.exists_duration
    exact Nat.not_le.1 fun hle => h d ((filter_elapsed?_eq_some ht).2 ⟨hn, hle⟩)
  · intro h d hd
    obtain ⟨hn, hle⟩ := (filter_elapsed?_eq_some ht).1 hd
    exact Nat.not_le.2 (h _ hn) hle

/-- What the policy decides is what is to be decided. -/
theorem decides_decide (ht : t.IsStrict) : t.Decides config now (t.decide config now) := by
  have hlt : ∀ {k c : Nat}, k.ble c = false → c < k := by
    intro k c h
    refine Nat.not_le.1 fun hle => ?_
    rw [Nat.ble_eq_true_of_le hle] at h
    cases h
  unfold decide
  split
  · rename_i hp
    obtain ⟨k, hk⟩ := Option.isSome_iff_exists.1 hp
    obtain ⟨e, he, rfl, hc, hs⟩ := exists_of_pendingCompaction? hk
    refine .outstanding he ⟨hc, ?_⟩
    rcases hs with hs | hs <;> rw [hs] <;> exact State.noConfusion
  rename_i hp
  have hnone := pendingCompaction?_eq_none_iff.1 (Option.not_isSome_iff_eq_none.1 hp)
  rw [length_openDeltaCommits]
  dsimp only
  split
  · rename_i elapsed hcount htime
    obtain ⟨helapsed, htime⟩ := (filter_elapsed?_eq_some ht).1 htime
    exact .both hnone (Nat.le_of_ble_eq_true hcount) helapsed htime
  · rename_i hcount htime
    exact .deltaCommits hnone (Nat.le_of_ble_eq_true hcount) ((filter_elapsed?_eq_none ht).1 htime)
  · rename_i elapsed hcount htime
    obtain ⟨helapsed, htime⟩ := (filter_elapsed?_eq_some ht).1 htime
    exact .elapsedTime hnone (hlt hcount) helapsed htime
  · rename_i hcount htime
    exact .neither hnone (hlt hcount) ((filter_elapsed?_eq_none ht).1 htime)

/-- What is to be decided is what the policy decides. -/
theorem Decides.decide_eq (ht : t.IsStrict) (h : t.Decides config now r) :
    t.decide config now = r := by
  have hpending : (∀ k ∈ t.entries, ¬k.IsOutstanding) → ¬t.pendingCompaction?.isSome = true :=
    fun hnone => Option.not_isSome_iff_eq_none.2 (pendingCompaction?_eq_none_iff.2 hnone)
  have hfalse : t.freshCount < config.maxDeltaCommits.toNat →
      config.maxDeltaCommits.toNat.ble t.freshCount = false :=
    fun hlt => Bool.eq_false_iff.2 fun hb => Nat.not_le.2 hlt (Nat.le_of_ble_eq_true hb)
  unfold decide
  dsimp only
  rw [length_openDeltaCommits]
  cases h with
  | outstanding hk ho =>
    refine if_pos (Option.ne_none_iff_isSome.1 fun hp => ?_)
    exact pendingCompaction?_eq_none_iff.1 hp _ hk ho
  | both hnone hcount helapsed htime =>
    rw [if_neg (hpending hnone), Nat.ble_eq_true_of_le hcount,
      (filter_elapsed?_eq_some ht).2 ⟨helapsed, htime⟩]
  | deltaCommits hnone hcount htime =>
    rw [if_neg (hpending hnone), Nat.ble_eq_true_of_le hcount, (filter_elapsed?_eq_none ht).2 htime]
  | elapsedTime hnone hcount helapsed htime =>
    rw [if_neg (hpending hnone), hfalse hcount,
      (filter_elapsed?_eq_some ht).2 ⟨helapsed, htime⟩]
  | neither hnone hcount htime =>
    rw [if_neg (hpending hnone), hfalse hcount, (filter_elapsed?_eq_none ht).2 htime]

/-- The entries that are no uncommitted delta commits, in the order of their timestamps. -/
def settled (t : Timeline) : List Entry :=
  t.entries.filter (¬·.IsUncommitted)

/-- What is settled are the entries but for uncommitted delta commits. -/
theorem mem_settled : e ∈ t.settled ↔ e ∈ t.entries ∧ ¬e.IsUncommitted := by
  rw [settled, List.mem_filter, decide_eq_true_iff]

/-- The timelines differ only in uncommitted delta commits, and not in their first entries. -/
structure Agrees (t u : Timeline) : Prop where
  first : u.entries.head? = t.entries.head?
  rest : u.settled = t.settled

namespace Agrees

/-- To differ only in uncommitted delta commits goes both ways. -/
theorem symm (h : t.Agrees u) : u.Agrees t :=
  ⟨h.first.symm, h.rest.symm⟩

/-- What is settled is in both timelines or in neither. -/
theorem mem_iff (h : t.Agrees u) (he : ¬e.IsUncommitted) : e ∈ u.entries ↔ e ∈ t.entries := by
  have hmem : e ∈ u.settled ↔ e ∈ t.settled := by rw [h.rest]
  rwa [mem_settled, mem_settled, and_iff_left he, and_iff_left he] at hmem

/-- All that holds of a settled entry of one holds of those of the other. -/
theorem forall_iff (h : t.Agrees u) {P Q : Entry → Prop} (hP : ∀ e, P e → ¬e.IsUncommitted) :
    (∀ k ∈ u.entries, P k → Q k) ↔ ∀ k ∈ t.entries, P k → Q k :=
  forall_congr' fun k => ⟨fun hk ht hp => hk ((h.mem_iff (hP k hp)).2 ht) hp,
    fun hk hu hp => hk ((h.mem_iff (hP k hp)).1 hu) hp⟩

end Agrees

/-- A completed compaction is no uncommitted delta commit. -/
theorem not_isUncommitted_of_isCompacted (h : e.IsCompacted) : ¬e.IsUncommitted := by
  rintro ⟨ha, -⟩
  cases ha.symm.trans h.1

/-- A completed delta commit is not uncommitted. -/
theorem not_isUncommitted_of_isCommitted (h : e.IsCommitted) : ¬e.IsUncommitted :=
  fun hu => hu.2 h.2

/-- An outstanding compaction is no uncommitted delta commit. -/
theorem not_isUncommitted_of_isOutstanding (h : e.IsOutstanding) : ¬e.IsUncommitted := by
  rintro ⟨ha, -⟩
  cases ha.symm.trans h.1

/-- The earliest entry is the first one. -/
theorem head?_eq_some (ht : t.IsStrict) : t.entries.head? = some e ↔
    e ∈ t.entries ∧ ∀ x ∈ t.entries, e.timestamp ≤ x.timestamp := by
  unfold IsStrict at ht
  cases hl : t.entries with
  | nil => simp
  | cons y ys =>
    rw [hl] at ht
    have hle : ∀ x ∈ y :: ys, y.timestamp ≤ x.timestamp := by
      intro x hx
      rcases List.mem_cons.1 hx with rfl | hx
      · exact Timestamp.le_refl _
      · exact Timestamp.le_of_lt ((List.pairwise_cons.1 ht).1 x hx)
    rw [List.head?_cons, Option.some.injEq]
    constructor
    · rintro rfl
      exact ⟨List.mem_cons_self, hle⟩
    · rintro ⟨he, hmin⟩
      exact eq_of_timestamp_eq ht List.mem_cons_self he
        (Timestamp.le_antisymm (hle e he) (hmin y List.mem_cons_self))

namespace Agrees

/-- As many delta commits count in both. -/
theorem freshCount_eq (h : t.Agrees u) : u.freshCount = t.freshCount := by
  have hfresh : ∀ e, u.IsFresh e ↔ t.IsFresh e := fun e =>
    and_congr_right fun _ => h.forall_iff fun _ => not_isUncommitted_of_isCompacted
  have hsettled : ∀ v : Timeline, v.settled.countP (v.IsFresh ·) = v.freshCount := by
    intro v
    rw [settled, List.countP_filter, freshCount]
    refine List.countP_congr fun e _ => ?_
    simp only [Bool.and_eq_true, decide_eq_true_eq]
    exact and_iff_left_of_imp fun hf => not_isUncommitted_of_isCommitted hf.1
  rw [← hsettled, ← hsettled, h.rest]
  refine List.countP_congr fun e _ => ?_
  rw [decide_eq_true_iff, decide_eq_true_iff, hfresh]

/-- The reference of one is that of the other. -/
theorem isReference (ht : t.IsStrict) (hu : u.IsStrict) (h : t.Agrees u) (he : t.IsReference e) :
    u.IsReference e := by
  obtain ⟨he, ⟨hc, hmax⟩ | ⟨hnone, hmin⟩⟩ := he
  · exact ⟨(h.mem_iff (not_isUncommitted_of_isCompacted hc)).2 he, .inl ⟨hc,
      (h.forall_iff fun _ => not_isUncommitted_of_isCompacted).2 hmax⟩⟩
  · obtain ⟨he, hmin⟩ := (head?_eq_some hu).1 (h.first.trans ((head?_eq_some ht).2 ⟨he, hmin⟩))
    exact ⟨he, .inr ⟨(h.forall_iff (Q := fun _ => False)
      fun _ => not_isUncommitted_of_isCompacted).2 hnone, hmin⟩⟩

/-- As much time has passed in both. -/
theorem hasElapsed (ht : t.IsStrict) (hu : u.IsStrict) (h : t.Agrees u)
    (hn : t.HasElapsed now n) : u.HasElapsed now n := by
  obtain ⟨e, m, he, hm⟩ := hn
  exact ⟨e, m, h.isReference ht hu he, hm⟩

/-- **Uncommitted delta commits do not matter,** but for the first instant. -/
theorem decides (ht : t.IsStrict) (hu : u.IsStrict) (h : t.Agrees u)
    (hd : t.Decides config now r) : u.Decides config now r := by
  have hnone : (∀ k ∈ t.entries, ¬k.IsOutstanding) → ∀ k ∈ u.entries, ¬k.IsOutstanding :=
    (h.forall_iff (Q := fun _ => False) fun _ => not_isUncommitted_of_isOutstanding).2
  have hcount := h.freshCount_eq
  have htime : (∀ n, t.HasElapsed now n → n < config.maxDeltaTime.nanoseconds) →
      ∀ n, u.HasElapsed now n → n < config.maxDeltaTime.nanoseconds :=
    fun ht' n hn => ht' n (h.symm.hasElapsed hu ht hn)
  cases hd with
  | outstanding hk ho =>
    exact .outstanding ((h.mem_iff (not_isUncommitted_of_isOutstanding ho)).2 hk) ho
  | both hk hc he hle =>
    rw [← hcount] at hc ⊢
    exact .both (hnone hk) hc (h.hasElapsed ht hu he) hle
  | deltaCommits hk hc hlt =>
    rw [← hcount] at hc ⊢
    exact .deltaCommits (hnone hk) hc (htime hlt)
  | elapsedTime hk hc he hle =>
    exact .elapsedTime (hnone hk) (hcount ▸ hc) (h.hasElapsed ht hu he) hle
  | neither hk hc hlt => exact .neither (hnone hk) (hcount ▸ hc) (htime hlt)

end Agrees

/-- **The policy decides what is to be decided,** and delta commits that have not completed do not
matter to it, but for the first instant. -/
theorem decide_iff (ht : t.IsStrict) (config : Config) (now : Moment) :
    (∀ r, t.decide config now = r ↔ t.Decides config now r) ∧
      ∀ u : Timeline, u.IsStrict → t.Agrees u → u.decide config now = t.decide config now := by
  constructor
  · intro r
    constructor
    · rintro rfl
      exact decides_decide ht
    · exact fun h => h.decide_eq ht
  · intro u hu h
    exact (h.decides ht hu (decides_decide ht)).decide_eq hu

/-- A delta commit has completed two hours ago, and a later one may have been requested. -/
theorem decide_iff_of_request :
    ∃ (t u : Timeline) (config : Config) (now : Moment) (elapsed : Duration), t.IsStrict ∧
      u.IsStrict ∧ t.Agrees u ∧ elapsed = .ofSeconds 7200 ∧
      t.Decides config now (some (.both 1 elapsed)) ∧
      u.decide config now = t.decide config now := by
  let done : Marker := ⟨⟨⟨"20240101000000"⟩, .deltaCommit, .completed⟩, .empty, none⟩
  let begun : Marker := ⟨.requested ⟨"20240101000100"⟩ .deltaCommit, .empty, none⟩
  let now : Moment := ⟨1704074400, 0, by decide⟩
  have hu : (empty.upsert done).IsStrict := isStrict_empty.upsert done
  have ht : ((empty.upsert done).upsert begun).IsStrict := hu.upsert begun
  have hagrees : ((empty.upsert done).upsert begun).Agrees (empty.upsert done) :=
    ⟨by decide +kernel, by decide +kernel⟩
  obtain ⟨hdecides, hsame⟩ := decide_iff ht ⟨false, 1, .ofSeconds 3600⟩ now
  refine ⟨_, _, ⟨false, 1, .ofSeconds 3600⟩, now, .ofSeconds 7200, ht, hu, hagrees, rfl, ?_, ?_⟩
  · exact (hdecides _).1 (by decide +kernel)
  · exact hsame _ hu hagrees

end Timeline
end CommitTimeline
