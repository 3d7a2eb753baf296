/-
# Delta commits that complete late

What is open is found by timestamps: the completed delta commits behind the last completed
compaction. So a delta commit that is still under way when a compaction of a later timestamp
is scheduled, and completes after that, is in no plan, and is not open any more when the
compaction has completed (`Pool.not_covered`). No other delta commit escapes. While calls of a
session come one after the other, a completed delta commit is listed in a plan, or it is
open, or it was completed after a compaction of a later timestamp had been requested,
which has completed since (`Pool.covered`).

A delta commit has one of three fates (`Timeline.Fate`), and every write keeps them
(`Timeline.Settled.isInvariant`): a compaction is scheduled only where none is
outstanding, so its plan lists all that no compaction is behind of.
-/

import CommitTimeline.Proofs.Compaction.Agreement
import CommitTimeline.Proofs.Compaction.Partition
import CommitTimeline.Proofs.Pool.Turns

namespace CommitTimeline

namespace Timeline

/-- The compactions in the order of their timestamps, each with what its plan merges. -/
def plans (t : Timeline) : List (Timestamp × List Timestamp) :=
  t.mergers.map fun k => (k.timestamp, merges k)

/-- A plan lists the delta commit, or it is behind the last completed compaction: then it is
counted, and the next plan lists it. -/
def Covers (t : Timeline) (d : Entry) : Prop :=
  (∃ k ∈ t.mergers, d.timestamp ∈ merges k) ∨
    ((∀ last ∈ t.lastCompaction?, last.timestamp < d.timestamp) ∧
      d.instant ∈ t.openDeltaCommits ∧ d.timestamp ∈ t.nextPlan.deltaCommits)

variable {t : Timeline} {d e m : Entry} {x : Timestamp × List Timestamp}

/-- A plan is that of a compaction, at its timestamp. -/
theorem mem_plans : x ∈ t.plans ↔ ∃ k ∈ t.mergers, (k.timestamp, merges k) = x :=
  List.mem_map

/-- A delta commit has no timestamp of a compaction. -/
theorem ne_of_mem_plans (ht : t.IsStrict) (he : e ∈ t.entries)
    (ha : e.instant.action = .deltaCommit) (hx : x ∈ t.plans) : e.timestamp ≠ x.1 := by
  intro htime
  obtain ⟨k, hk, rfl⟩ := mem_plans.1 hx
  obtain ⟨hke, hkm⟩ := mem_mergers.1 hk
  rw [← eq_of_timestamp_eq ht he hke htime] at hkm
  exact Marker.not_isMerger_of_deltaCommit ha hkm

/-- What is no compaction changes no plan. -/
theorem mem_plans_upsert (ht : t.IsStrict) (hm : ¬m.IsMerger)
    (he : ∀ e ∈ t.entries, e.timestamp = m.timestamp → ¬e.IsMerger) :
    x ∈ (t.upsert m).plans ↔ x ∈ t.plans := by
  have hmergers : ∀ k, k ∈ (t.upsert m).mergers ↔ k ∈ t.mergers := by
    intro k
    rw [mem_mergers, mem_mergers, mem_upsert_iff ht]
    constructor
    · rintro ⟨rfl | ⟨hk, -⟩, hkm⟩
      · exact absurd hkm hm
      · exact ⟨hk, hkm⟩
    · rintro ⟨hk, hkm⟩
      exact ⟨.inr ⟨hk, fun htime => he k hk htime hkm⟩, hkm⟩
  simp only [mem_plans, hmergers]

/-- A compaction that takes a step keeps its plan. -/
theorem plans_upsert_after {target : State} (ht : t.IsStrict) (he : e ∈ t.entries)
    (ha : e.instant.action = .compaction) (hl : e.instant.state.Leads target) :
    (t.upsert (e.after target none)).plans = t.plans := by
  have hmergers := map_mergers_upsert ht he (e.timestamp_after target none).symm rfl
    (iff_of_true (Marker.isMerger_after_of_compaction ha target none)
      (.inl ⟨ha, State.ne_completed_of_leads hl⟩))
  have hplans := congrArg (List.map fun p : Timestamp × Details =>
    (p.1, (p.2.plan?.getD .empty).deltaCommits)) hmergers
  rw [List.map_map, List.map_map] at hplans
  exact hplans

/-- A compaction behind all entries adds its plan. -/
theorem mem_plans_upsert_of_lt (hlt : ∀ x ∈ t.entries, x.timestamp < m.timestamp)
    (hm : m.IsMerger) : x ∈ (t.upsert m).plans ↔ x ∈ t.plans ∨ x = (m.timestamp, merges m) := by
  simp [plans, mergers, upsert_of_lt hlt, hm]

/-- A timestamp behind all entries is behind all plans. -/
theorem lt_of_mem_plans {timestamp : Timestamp} (hlt : ∀ x ∈ t.entries, x.timestamp < timestamp)
    (hx : x ∈ t.plans) : x.1 < timestamp := by
  obtain ⟨k, hk, rfl⟩ := mem_plans.1 hx
  exact hlt k (mem_mergers.1 hk).1

/-- Where nothing is outstanding, the next plan lists what is behind all compactions. -/
theorem mem_nextPlan (hnone : ∀ e ∈ t.entries, ¬e.IsOutstanding) (hd : d ∈ t.committed)
    (hbehind : ∀ k ∈ t.plans, k.1 < d.timestamp) : d.timestamp ∈ t.nextPlan.deltaCommits := by
  rw [deltaCommits_nextPlan hnone]
  refine List.mem_map_of_mem (mem_unmerged.2 ⟨hd, ?_⟩)
  intro last hlast
  obtain ⟨k, hk, rfl⟩ := List.mem_map.1 (List.mem_of_getLast? hlast)
  exact hbehind _ (mem_plans.2 ⟨k, hk, rfl⟩)

/-- Of the compactions behind a timestamp one is the first. -/
theorem exists_first_plan (ht : t.IsStrict) {timestamp : Timestamp}
    (h : ∃ k ∈ t.plans, timestamp < k.1) :
    ∃ k ∈ t.plans, timestamp < k.1 ∧ ∀ k' ∈ t.plans, timestamp < k'.1 → k.1 ≤ k'.1 := by
  have hsorted : t.plans.Pairwise fun k k' => k.1 < k'.1 := List.pairwise_map.2 (ht.filter _)
  obtain ⟨k, hk⟩ : ∃ k, t.plans.find? (fun k => Decidable.decide (timestamp < k.1)) = some k := by
    rw [← Option.isSome_iff_exists, List.find?_isSome]
    simpa using h
  obtain ⟨hlt, before, after, hplans, hbefore⟩ := List.find?_eq_some_iff_append.1 hk
  rw [hplans, List.pairwise_append, List.pairwise_cons] at hsorted
  rw [hplans]
  refine ⟨k, List.mem_append_right _ List.mem_cons_self, of_decide_eq_true hlt, ?_⟩
  intro k' hk' hlt'
  rcases List.mem_append.1 hk' with hk' | hk'
  · exact absurd hlt' (by simpa using hbefore k' hk')
  rcases List.mem_cons.1 hk' with rfl | hk'
  · exact Timestamp.le_refl _
  · exact Timestamp.le_of_lt (hsorted.2.1.1 k' hk')

/-- A completed delta commit behind the last completed compaction is open. -/
theorem mem_openDeltaCommits (hd : d ∈ t.committed)
    (h : ∀ last ∈ t.lastCompaction?, last.timestamp < d.timestamp) :
    d.instant ∈ t.openDeltaCommits := by
  obtain ⟨hde, ha, hs⟩ := mem_committed.1 hd
  refine List.mem_filter.2 ⟨List.mem_map_of_mem hde, ?_⟩
  rw [ha, Instant.isCompleted, hs]
  cases hlast : t.lastCompaction? with
  | none => rfl
  | some last => exact decide_eq_true (h last hlast)

/-- What is behind the last completed compaction is covered. -/
theorem covers_of_lt (hd : d ∈ t.committed)
    (h : ∀ last ∈ t.lastCompaction?, last.timestamp < d.timestamp) : t.Covers d := by
  have hopen := mem_openDeltaCommits hd h
  refine .inr ⟨h, hopen, ?_⟩
  rw [nextPlan, Plan.ofDeltaCommits, List.map_map]
  exact List.mem_map_of_mem hopen

/-- What has come of a delta commit that has completed; `L` says of which compactions it
has completed after they were requested. -/
inductive Fate (L : Timestamp → Timestamp → Prop) (plans : List (Timestamp × List Timestamp))
    (timestamp : Timestamp) : Prop where
  /-- A plan lists it. -/
  | listed {k : Timestamp × List Timestamp} (hk : k ∈ plans) (hd : timestamp ∈ k.2)
  /-- It is behind all compactions. -/
  | behind (h : ∀ k ∈ plans, k.1 < timestamp)
  /-- It has completed after the first compaction behind it was requested. -/
  | late {k : Timestamp × List Timestamp} (hk : k ∈ plans) (hlt : timestamp < k.1)
    (hfirst : ∀ k' ∈ plans, timestamp < k'.1 → k.1 ≤ k'.1) (hl : L timestamp k.1)

/-- The completed delta commits have one of the fates. What carries it: compactions were
requested in the order of their timestamps, so only the last one can be outstanding. -/
structure Settled (L : Timestamp → Timestamp → Prop) (created : List Marker) (t : Timeline) :
    Prop where
  fates : ∀ d ∈ t.committed, Fate L t.plans d.timestamp
  creations : ∀ k ∈ t.plans, ∃ c ∈ created, c.timestamp = k.1 ∧ c.instant.action = .compaction
  outstanding : ∀ e ∈ t.entries, e.IsOutstanding → ∀ k ∈ t.plans, k.1 ≤ e.timestamp

variable {L L' : Timestamp → Timestamp → Prop} {created created' : List Marker}
  {plans plans' : List (Timestamp × List Timestamp)} {timestamp : Timestamp}

/-- A fate stays one if it is late for as much and the plans are the same. -/
theorem Fate.imp (h : Fate L plans timestamp) (hL : ∀ d k, L d k → L' d k)
    (hp : ∀ x, x ∈ plans' ↔ x ∈ plans) : Fate L' plans' timestamp := by
  cases h with
  | listed hk hd => exact .listed ((hp _).2 hk) hd
  | behind h => exact .behind fun k hk => h k ((hp k).1 hk)
  | late hk hlt hfirst hl =>
    exact .late ((hp _).2 hk) hlt (fun k' hk' => hfirst k' ((hp k').1 hk')) (hL _ _ hl)

namespace Settled

/-- In the empty timeline nothing has completed. -/
theorem empty : Settled L [] .empty where
  fates := by
    intro d hd
    cases hd
  creations := by
    intro k hk
    cases hk
  outstanding := by
    intro e he
    cases he

/-- The fates stay ones if what was late is late still. -/
theorem imp (h : Settled L created t) (hL : ∀ d k, L d k → L' d k) : Settled L' created t where
  fates := fun d hd => (h.fates d hd).imp hL fun _ => Iff.rfl
  creations := h.creations
  outstanding := h.outstanding

/-- An entry is put that changes no plan. -/
theorem upsert (h : Settled L created t) (hp : ∀ x, x ∈ (t.upsert m).plans ↔ x ∈ t.plans)
    (hc : m.IsCommitted → Fate L t.plans m.timestamp)
    (ho : m.IsOutstanding → ∀ k ∈ t.plans, k.1 ≤ m.timestamp) (hs : created ⊆ created') :
    Settled L created' (t.upsert m) where
  fates := by
    intro d hd
    obtain ⟨hde, hdc⟩ := mem_committed.1 hd
    rcases mem_of_mem_upsert hde with rfl | hde
    · exact (hc hdc).imp (fun _ _ => id) hp
    · exact (h.fates d (mem_committed.2 ⟨hde, hdc⟩)).imp (fun _ _ => id) hp
  creations := by
    intro k hk
    obtain ⟨c, hcm, hct⟩ := h.creations k ((hp k).1 hk)
    exact ⟨c, hs hcm, hct⟩
  outstanding := by
    intro e he heo k hk
    rcases mem_of_mem_upsert he with rfl | he
    · exact ho heo k ((hp k).1 hk)
    · exact h.outstanding e he heo k ((hp k).1 hk)

/-- A delta commit is put: where it has completed, it has a fate. -/
theorem deltaCommit (h : Settled L created t) (ht : t.IsStrict)
    (ha : m.instant.action = .deltaCommit)
    (he : ∀ e ∈ t.entries, e.timestamp = m.timestamp → e.instant.action = .deltaCommit)
    (hc : m.instant.state = .completed → Fate L t.plans m.timestamp) (hs : created ⊆ created') :
    Settled L created' (t.upsert m) := by
  refine h.upsert (fun x => mem_plans_upsert ht (Marker.not_isMerger_of_deltaCommit ha) ?_)
    (fun hm => hc hm.2) ?_ hs
  · intro e hem htime
    exact Marker.not_isMerger_of_deltaCommit (he e hem htime)
  · rintro ⟨hm, -⟩
    cases ha.symm.trans hm

/-- A delta commit that takes a step gets a fate where it completes. -/
theorem after (h : Settled L created t) (ht : t.IsStrict) (he : e ∈ t.entries)
    (ha : e.instant.action = .deltaCommit) {target : State} {details : Option Details}
    (hc : target = .completed → Fate L t.plans e.timestamp) :
    Settled L created (t.upsert (e.after target details)) := by
  refine h.deltaCommit ht (Marker.action_after_eq_deltaCommit.2 ha) ?_ hc
    (List.Subset.refl created)
  intro x hx htime
  rw [eq_of_timestamp_eq ht hx he htime]
  exact ha

/-- **A delta commit that completes is behind all compactions,** or it is late for the first
one behind it. -/
theorem fate (h : Settled L created t) (ht : t.IsStrict) (he : e ∈ t.entries)
    (ha : e.instant.action = .deltaCommit)
    (hL : ∀ c ∈ created, c.instant.action = .compaction → L e.timestamp c.timestamp) :
    Fate L t.plans e.timestamp := by
  by_cases hbehind : ∀ k ∈ t.plans, k.1 < e.timestamp
  · exact .behind hbehind
  push Not at hbehind
  obtain ⟨k, hk, hle⟩ := hbehind
  have hlt : e.timestamp < k.1 :=
    Timestamp.lt_of_le_of_ne (Timestamp.not_lt.1 hle) (ne_of_mem_plans ht he ha hk)
  obtain ⟨k', hk', hlt', hfirst⟩ := exists_first_plan ht ⟨k, hk, hlt⟩
  obtain ⟨c, hc, htime, hca⟩ := h.creations k' hk'
  exact .late hk' hlt' hfirst (htime ▸ hL c hc hca)

/-- **A plan lists all that no compaction is behind of,** for none is outstanding. -/
theorem schedule (h : Settled L created t) (hlt : ∀ x ∈ t.entries, x.timestamp < m.timestamp)
    (hnone : ∀ e ∈ t.entries, ¬e.IsOutstanding) (ha : m.instant.action = .compaction)
    (hs : m.instant.state = .requested) (hd : m.details = .plan t.nextPlan) :
    Settled L (m :: created) (t.upsert m) := by
  have hm : m.IsOutstanding := by
    refine ⟨ha, ?_⟩
    rw [hs]
    decide
  have hentries : ∀ e ∈ (t.upsert m).entries, e ∈ t.entries ∨ e = m :=
    fun e he => (mem_of_mem_upsert he).symm
  have hplans : ∀ {k}, k ∈ (t.upsert m).plans ↔ k ∈ t.plans ∨ k = (m.timestamp, merges m) :=
    mem_plans_upsert_of_lt hlt (.inl hm)
  have hbefore : ∀ k ∈ t.plans, k.1 < m.timestamp := fun k => lt_of_mem_plans hlt
  constructor
  · intro d hdm
    obtain ⟨hde, hdc⟩ := mem_committed.1 hdm
    rcases hentries d hde with hde | rfl
    · have hdt : d ∈ t.committed := mem_committed.2 ⟨hde, hdc⟩
      cases h.fates d hdt with
      | listed hk hdk => exact .listed (hplans.2 (.inl hk)) hdk
      | behind hbehind =>
        refine .listed (hplans.2 (.inr rfl)) ?_
        rw [merges, hd]
        exact mem_nextPlan hnone hdt hbehind
      | late hk hltk hfirst hl =>
        refine .late (hplans.2 (.inl hk)) hltk ?_ hl
        intro k' hk' hltk'
        rcases hplans.1 hk' with hk' | rfl
        · exact hfirst k' hk' hltk'
        · exact Timestamp.le_of_lt (hbefore _ hk)
    · cases ha.symm.trans hdc.1
  · intro k hk
    rcases hplans.1 hk with hk | rfl
    · obtain ⟨c, hc, hct⟩ := h.creations k hk
      exact ⟨c, List.mem_cons_of_mem m hc, hct⟩
    · exact ⟨m, List.mem_cons_self, rfl, ha⟩
  · intro e he heo k hk
    rcases hentries e he with he | rfl
    · exact absurd heo (hnone e he)
    · rcases hplans.1 hk with hk | rfl
      · exact Timestamp.le_of_lt (hbefore k hk)
      · exact Timestamp.le_refl _

/-- **Every write of a call that writes or compacts data keeps the fates.** -/
theorem isInvariant (L : Timestamp → Timestamp → Prop) : IsInvariant (Settled L) := by
  intro created t new t' ht h hadvances
  cases hadvances with
  | request hr =>
    refine h.deltaCommit ht rfl ?_ (fun hs => by cases hs) (List.subset_cons_self _ _)
    intro e he htime
    exact absurd htime (Timestamp.ne_of_lt (Session.lt_of_refusal? hr e he))
  | ingest he ha hs => exact h.after ht he ha fun hc => by cases hc
  | @commit e _ he ha hs hlast =>
    refine h.after ht he ha fun _ => .behind ?_
    intro k hk
    refine Timestamp.lt_of_le_of_ne ?_ (ne_of_mem_plans ht he ha hk).symm
    obtain ⟨x, hx, rfl⟩ := mem_plans.1 hk
    exact hlast x (mem_mergers.1 hx).1
  | schedule hr =>
    exact h.schedule (Session.lt_of_refusal? hr) (Session.not_isOutstanding_of_refusal? hr rfl)
      rfl rfl rfl
  | @compact e target he ha hl =>
    refine h.upsert (fun x => by rw [plans_upsert_after ht he ha hl]) ?_ ?_
      (List.Subset.refl created)
    · rintro ⟨hc, -⟩
      cases ha.symm.trans (Marker.action_after_eq_deltaCommit.1 hc)
    · intro _
      exact h.outstanding e he ⟨ha, State.ne_completed_of_leads hl⟩

/-- **What is not covered was late** for a compaction that has completed. -/
theorem covers_or (h : Settled L created t) (ht : t.IsStrict) (hd : d ∈ t.committed) :
    t.Covers d ∨ ∃ k ∈ t.entries, k.instant.action = .commit ∧ k.instant.state = .completed ∧
      d.timestamp < k.timestamp ∧ L d.timestamp k.timestamp := by
  obtain ⟨hde, hdc⟩ := mem_committed.1 hd
  have hlast : ∀ last ∈ t.lastCompaction?, ∃ k ∈ t.mergers, k.timestamp = last.timestamp ∧
      k.instant.state = .completed := by
    intro last hl
    obtain ⟨k, hk, rfl, hc, -⟩ := exists_of_lastCompaction? hl
    exact ⟨k, mem_mergers.2 ⟨hk, .inr hc⟩, rfl, hc.2⟩
  cases h.fates d hd with
  | listed hx hdk =>
    obtain ⟨k, hk, rfl⟩ := mem_plans.1 hx
    exact .inl (.inl ⟨k, hk, hdk⟩)
  | behind hb =>
    refine .inl (covers_of_lt hd ?_)
    intro last hl
    obtain ⟨k, hk, ht, -⟩ := hlast last hl
    rw [← ht]
    exact hb _ (mem_plans.2 ⟨k, hk, rfl⟩)
  | late hx hlt hfirst hl =>
    by_cases hopen : ∀ last ∈ t.lastCompaction?, last.timestamp < d.timestamp
    · exact .inl (covers_of_lt hd hopen)
    obtain ⟨k, hk, rfl⟩ := mem_plans.1 hx
    obtain ⟨hke, hkm⟩ := mem_mergers.1 hk
    push Not at hopen
    obtain ⟨last, hlm, hle⟩ := hopen
    obtain ⟨k', hk', htime, hs⟩ := hlast last hlm
    have hke' := (mem_mergers.1 hk').1
    rw [← htime, Timestamp.not_lt] at hle
    have hx' := mem_plans.2 ⟨k', hk', rfl⟩
    -- the last completed compaction is behind it as well, so it is not before the first one
    have hfirst' := hfirst _ hx' (Timestamp.lt_of_le_of_ne hle (ne_of_mem_plans ht hde hdc.1 hx'))
    rcases hkm with hko | ⟨ha, hs⟩
    · have hle' := h.outstanding k hke hko _ hx'
      rw [eq_of_timestamp_eq ht hke hke' (Timestamp.le_antisymm hfirst' hle')] at hko
      exact absurd hs hko.2
    · exact .inr ⟨k, hke, ha, hs, hlt, hl⟩

end Settled
end Timeline

namespace History

open Timeline

/-- The completion of a delta commit was written after a compaction had been created. -/
def CompletedAfter (acts : List Act) (table : Table) (d k : Timestamp) : Prop :=
  ∃ later a before m c, acts = later ++ a :: before ∧
    a.exchange.write? = some (table.markerAt d, Marker.encode m) ∧ m.timestamp = d ∧
    m.IsCommitted ∧ (table.markerAt k, Marker.encode c) ∈ creations before ∧ c.timestamp = k ∧
    c.instant.action = .compaction

/-- What was completed after a compaction was created stays so. -/
theorem CompletedAfter.append {acts : List Act} {table : Table} {d k : Timestamp}
    (h : CompletedAfter acts table d k) (l : List Act) : CompletedAfter (l ++ acts) table d k := by
  obtain ⟨later, a, before, m, c, rfl, hw⟩ := h
  exact ⟨l ++ later, a, before, m, c, by rw [List.append_assoc], hw⟩

/-- What is stored are the markers of one timeline, and what has completed in it has a fate. -/
def IsSettled (h : History) (table : Table) : Prop :=
  h.Kept table (Settled (CompletedAfter h.acts table))

variable {h h' : History} {table : Table} {v t : Timeline} {task : Nat} {created : List Marker}
  {own : List Exchange} {m current : Marker}

/-- What is settled by the acts up to some moment is settled later. -/
theorem Kept.isSettled (hk : h'.Kept table (Settled (CompletedAfter h.acts table)))
    (hl : ∃ l, h'.acts = l ++ h.acts) : h'.IsSettled table := by
  obtain ⟨t, created, hh, hs⟩ := hk
  obtain ⟨l, hl⟩ := hl
  refine ⟨t, created, hh, hs.imp ?_⟩
  intro d k hdk
  rw [hl]
  exact hdk.append l

/-- A delta commit that is created has not completed yet. -/
theorem Holds.isSettled_of_creates (hh : h.Holds table created t)
    (hs : Settled (CompletedAfter h.acts table) created t) (hr : Runs task h own h')
    (hc : Session.Creates table m own) (ha : m.instant.action = .deltaCommit)
    (hm : m.instant.state = .requested) : h'.IsSettled table := by
  obtain ⟨hnew, hh'⟩ := hh.of_creates hr hc
  refine Kept.isSettled ⟨_, _, hh', ?_⟩ ⟨_, hr.acts⟩
  refine hs.deltaCommit hh.strict ha ?_ ?_ (List.subset_cons_self _ _)
  · intro e he htime
    exact absurd htime (hnew e he)
  · intro hc
    cases hm.symm.trans hc

/-- A delta commit that completes now does so after every compaction was created. -/
theorem Holds.completedAfter (hh : h.Holds table created t) (hr : Runs task h own h')
    {details : Option Details} (hm : Session.Moves table current.instant .completed details current
      (current.after .completed details) own) (ha : current.instant.action = .deltaCommit)
    {c : Marker} (hc : c ∈ created) (hca : c.instant.action = .compaction) :
    CompletedAfter h'.acts table current.timestamp c.timestamp := by
  obtain ⟨known, data, version, -, rfl⟩ := hm.exchanges
  have hcreated : (table.markerAt c.timestamp, c.encode) ∈ creations h.acts := by
    rw [hh.created]
    exact List.mem_map_of_mem hc
  exact ⟨[], _, _, current.after .completed details, c, hr.acts, rfl, rfl,
    ⟨Marker.action_after_eq_deltaCommit.2 ha, rfl⟩, hcreated, rfl, hca⟩

/-- A delta commit that takes a step gets its fate where it completes. -/
theorem Holds.isSettled_of_moves (hh : h.Holds table created t)
    (hs : Settled (CompletedAfter h.acts table) created t) (hr : Runs task h own h')
    {instant : Instant} {target : State} {details : Option Details}
    (hm : Session.Moves table instant target details current m own)
    (ha : instant.action = .deltaCommit) : h'.IsSettled table := by
  obtain ⟨he, rfl, rfl, hh'⟩ := hh.of_moves hr hm
  have hs' : Settled (CompletedAfter h'.acts table) created t := by
    refine hs.imp ?_
    intro d k hdk
    rw [hr.acts]
    exact hdk.append _
  refine ⟨_, _, hh', hs'.after hh.strict he ha ?_⟩
  rintro rfl
  exact hs'.fate hh.strict he ha fun c => hh.completedAfter hr hm ha

/-- **Every call keeps the fates** of what has completed, if compactions are left to the
coordinators. -/
theorem IsSettled.safe_call (hk : h.IsSettled table) {op : Operation}
    (hop : op.SparesCompactions) :
    (op.call table).Safe (Step task) (·.IsSettled table) (fun _ h' => h'.IsSettled table)
      (fun _ _ h' => h'.IsSettled table) v h := by
  by_cases hmanaged : op.IsManaged
  · refine (IsInvariant.safe_call (Settled.isInvariant _) hmanaged hk).extends.mono ?_ ?_ ?_
    · rintro h' ⟨hl, hk'⟩
      exact hk'.isSettled hl
    · rintro _ h' ⟨hl, hk'⟩
      exact hk'.isSettled hl
    · rintro _ w h' ⟨hl, hs'⟩
      exact hs'.kept.isSettled hl
  obtain ⟨t, created, hh, hs⟩ := hk
  have hwaits : ∀ h' : History, (∃ l, h'.acts = l ++ h.acts) ∧ h'.Holds table created t →
      h'.IsSettled table := by
    rintro h' ⟨hl, hh'⟩
    exact Kept.isSettled ⟨t, created, hh', hs⟩ hl
  cases op with
  | append instant details requestedAt =>
    refine Call.Safe.bind ((hh.safe_runs (Session.safe_append instant details
      requestedAt)).extends.mono hwaits (fun _ => hwaits) ?_) fun _ _ _ hg => Call.safe_pure hg
    rintro _ w h' ⟨-, own, hr, -, hrefusal, -, hc⟩
    exact hh.isSettled_of_creates hs hr hc hop (Session.state_of_refusal? hrefusal)
  | transition instant target details =>
    refine Call.Safe.bind ((hh.safe_runs (Session.safe_transition instant target
      details)).extends.mono hwaits (fun _ => hwaits) ?_) fun _ _ _ hg => Call.safe_pure hg
    rintro _ w h' ⟨-, own, hr, -, -, current, m, -, hm⟩
    exact hh.isSettled_of_moves hs hr hm hop
  | _ => exact absurd trivial hmanaged

end History

namespace Pool

/-- The view that the last call has left; at first it is empty. -/
def lastView (P : Pool) : Timeline :=
  ((P.tasks.getLast?.bind Task.result?).map (·.2)).getD .empty

/-- One session calls, one call after the other, and leaves compactions to its coordinator. -/
def oneSession (table : Table) (P : Pool) (u : Table) (op : Operation) (v : Timeline) : Prop :=
  u = table ∧ op.SparesCompactions ∧ v = P.lastView ∧ ∀ task ∈ P.tasks, task.result?.isSome

variable {base : Storage.Objects} {table : Table} {P : Pool}

/-- Whatever a session comes to, what has completed has a fate. -/
theorem ReachableFrom.isSettled
    (hempty : ∀ path, table.IsSearched path → base.find? (table.place path) = none)
    (h : ReachableFrom base (oneSession table) P) : P.history.IsSettled table := by
  have hs : P.Serial (·.IsSettled table) (fun _ _ _ _ => True) := by
    refine Serial.of_reachable ?_ ?_ ?_ h
    · exact ⟨_, _, .of_base hempty, .empty⟩
    · intro P u op v ha
      exact ha.2.2.2
    · rintro P u op v ⟨rfl, hop, -⟩ hs
      refine (hs.holds.safe_call hop).imp ?_
      intro r w h' hw
      exact ⟨hw, trivial⟩
  exact hs.holds

/-- **A delta commit escapes only if it completes late:** after a compaction of a later
timestamp had been requested, which has completed since. -/
theorem covered (hempty : ∀ path, table.IsSearched path → base.find? (table.place path) = none)
    (h : ReachableFrom base (oneSession table) P) :
    ∃ created t, P.history.Holds table created t ∧ ∀ d ∈ t.committed, t.Covers d ∨
      ∃ k ∈ t.entries, k.instant.action = .commit ∧ k.instant.state = .completed ∧
        d.timestamp < k.timestamp ∧
        History.CompletedAfter P.history.acts table d.timestamp k.timestamp := by
  obtain ⟨t, created, hh, hs⟩ := h.isSettled hempty
  exact ⟨created, t, hh, fun d hd => hs.covers_or hh.strict hd⟩

/-- The session calls in calm, one call after the other. -/
def calls (table : Table) (P : Pool) (ops : List Operation) : Pool :=
  ops.foldl (fun P op => P.called .plain table op P.lastView) P

/-- What comes of the calls of one session is reachable. -/
theorem ReachableFrom.calls {ops : List Operation} (h : ReachableFrom base (oneSession table) P)
    (hops : ∀ op ∈ ops, op.SparesCompactions) :
    ReachableFrom base (oneSession table) (P.calls table ops) :=
  List.foldlRecOn ops _ h fun _ h op hop =>
    h.called fun hreturned => ⟨rfl, hops op hop, rfl, hreturned⟩

/-- Two delta commits are requested. The second one completes, and is compacted; then the first
one completes. -/
def overtaking : List Operation :=
  [.append (.requested ⟨"001"⟩ .deltaCommit) .empty none,
    .append (.requested ⟨"002"⟩ .deltaCommit) .empty none,
    .transition ⟨⟨"002"⟩, .deltaCommit, .requested⟩ .inflight none,
    .transition ⟨⟨"002"⟩, .deltaCommit, .inflight⟩ .completed none,
    .run ⟨true, 1, .ofSeconds 3600⟩ ⟨0, 0, isMoment_zero⟩,
    .transition ⟨⟨"001"⟩, .deltaCommit, .requested⟩ .inflight none,
    .transition ⟨⟨"001"⟩, .deltaCommit, .inflight⟩ .completed none]

/-- What the session has come to. -/
def overtaken : Pool :=
  empty.calls .sample overtaking

/-- The session makes no more than one call at a time. -/
theorem reachable_overtaken : Reachable (oneSession .sample) overtaken := by
  refine ReachableFrom.empty.calls ?_
  simp [overtaking, Operation.SparesCompactions, Instant.requested]

/-- What is stored then. -/
def overtakenTimeline : Timeline :=
  .ofEntries [⟨⟨⟨"001"⟩, .deltaCommit, .completed⟩, .empty, none⟩,
    ⟨⟨⟨"002"⟩, .deltaCommit, .completed⟩, .empty, none⟩,
    ⟨⟨⟨"19700101000000000"⟩, .commit, .completed⟩, .plan ⟨[⟨"002"⟩], []⟩,
      some ⟨0, 0, isMoment_zero⟩⟩]

/-- What was created: two delta commits, then a compaction. -/
def overtakenCreated : List Marker :=
  [⟨.requested ⟨"19700101000000000"⟩ .compaction, .plan ⟨[⟨"002"⟩], []⟩,
      some ⟨0, 0, isMoment_zero⟩⟩,
    ⟨.requested ⟨"002"⟩ .deltaCommit, .empty, none⟩,
    ⟨.requested ⟨"001"⟩ .deltaCommit, .empty, none⟩]

/-- What is stored and what was created, as it is computed. -/
theorem holds_overtaken : overtaken.history.Holds .sample overtakenCreated overtakenTimeline := by
  have hcomputed : (overtaken.history.objects.entries.map fun x => (x.1, x.2.data)) =
        overtakenTimeline.entries.map (fun e => (Table.sample.markerAt e.timestamp, e.encode)) ∧
      History.creations overtaken.history.acts =
        overtakenCreated.map fun m => (Table.sample.markerAt m.timestamp, m.encode) := by
    decide +kernel
  exact .of_entries (Timeline.isStrict_ofEntries (by decide)) hcomputed.1 hcomputed.2

/-- **A delta commit that completes late is in no plan,** and no plan will list it. -/
theorem not_covered :
    Reachable (oneSession .sample) overtaken ∧ ∃ created t,
      overtaken.history.Holds .sample created t ∧ ∃ d ∈ t.committed, ¬t.Covers d := by
  refine ⟨reachable_overtaken, _, _, holds_overtaken,
    ⟨⟨⟨"001"⟩, .deltaCommit, .completed⟩, .empty, none⟩, by decide, ?_⟩
  rintro (⟨k, hk, hlisted⟩ | ⟨-, hopen, -⟩)
  · revert k
    decide
  · revert hopen
    decide

/-- What comes of the delta commit that has completed late. -/
theorem covered_of_late :
    Reachable (oneSession .sample) overtaken ∧ ∃ created t,
      overtaken.history.Holds .sample created t ∧ ∀ d ∈ t.committed, t.Covers d ∨
        ∃ k ∈ t.entries, k.instant.action = .commit ∧ k.instant.state = .completed ∧
          d.timestamp < k.timestamp ∧
          History.CompletedAfter overtaken.history.acts .sample d.timestamp k.timestamp :=
  ⟨reachable_overtaken, covered (fun _ _ => Storage.Objects.find?_empty _) reachable_overtaken⟩

end Pool
end CommitTimeline
