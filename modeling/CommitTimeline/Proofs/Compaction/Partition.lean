/-
# Every delta commit is merged once

Calls that write and compact data come one after the other, by any sessions with any
views, and anything they ask may fail. The plans of the compactions then list every
completed delta commit once, in the order of the timestamps, up to those after the last
compaction, which are still open (`Timeline.Partitioned`, `Pool.partitioned`). And the
file groups of a plan are those that its delta commits have touched.

What carries it: a compaction is requested only where none is outstanding, so its plan
takes up where the last one ends, and a delta commit completes only as the last instant,
so none completes behind a compaction.
-/

import CommitTimeline.Proofs.Batch
import CommitTimeline.Proofs.Compaction.Serial
import CommitTimeline.Proofs.Pool.Turns

namespace CommitTimeline

namespace Marker

/-- A delta commit that has completed. -/
def IsCommitted (m : Marker) : Prop :=
  m.instant.action = .deltaCommit ∧ m.instant.state = .completed

/-- A compaction that is outstanding, or has completed as a commit. -/
def IsMerger (m : Marker) : Prop :=
  m.IsOutstanding ∨ (m.instant.action = .commit ∧ m.instant.state = .completed)

/-- A compaction that has completed. -/
def IsCompacted (m : Marker) : Prop :=
  m.instant.action = .commit ∧ m.instant.state = .completed

instance (m : Marker) : Decidable m.IsCommitted :=
  inferInstanceAs (Decidable (_ ∧ _))

instance (m : Marker) : Decidable m.IsCompacted :=
  inferInstanceAs (Decidable (_ ∧ _))

instance (m : Marker) : Decidable m.IsMerger :=
  inferInstanceAs (Decidable (_ ∨ _))

/-- A delta commit is no compaction. -/
theorem not_isMerger_of_deltaCommit {m : Marker} (h : m.instant.action = .deltaCommit) :
    ¬m.IsMerger := by
  rintro (⟨ha, -⟩ | ⟨ha, -⟩)
  · cases h.symm.trans ha
  · cases h.symm.trans ha

/-- A compaction that takes a step stays one. -/
theorem isMerger_after_of_compaction {m : Marker} (h : m.instant.action = .compaction)
    (target : State) (details : Option Details) : (m.after target details).IsMerger := by
  obtain ⟨⟨t, a, s⟩, d, r⟩ := m
  obtain rfl : a = .compaction := h
  cases target with
  | completed => exact .inr ⟨rfl, rfl⟩
  | requested => exact .inl ⟨rfl, fun h => by cases h⟩
  | inflight => exact .inl ⟨rfl, fun h => by cases h⟩

end Marker

namespace Timeline

/-- The delta commits that have completed, in the order of their timestamps. -/
def committed (t : Timeline) : List Entry :=
  t.entries.filter (·.IsCommitted)

/-- The compactions, in the order of their timestamps. -/
def mergers (t : Timeline) : List Entry :=
  t.entries.filter (·.IsMerger)

/-- What the plan of a compaction merges. -/
def merges (k : Entry) : List Timestamp :=
  (k.details.plan?.getD .empty).deltaCommits

/-- The completed delta commits after the last compaction, or all of them. -/
def unmerged (t : Timeline) : List Entry :=
  t.committed.filter fun d => (t.mergers.map (·.timestamp)).getLast?.all (· < d.timestamp)

/-- The file groups of a plan are those that are recorded of its delta commits, sorted and
without repetition. -/
structure Gathers (t : Timeline) (plan : Plan) : Prop where
  sorted : plan.fileGroups.Pairwise (· < ·)
  mem : ∀ g, g ∈ plan.fileGroups ↔ ∃ d ∈ t.committed, d.timestamp ∈ plan.deltaCommits ∧
    ∃ m, d.details = .metadata m ∧ g ∈ m.fileGroups

/-- The plans of the compactions, and then what is open, list the completed delta commits. -/
structure Partitioned (t : Timeline) : Prop where
  deltaCommits : t.mergers.flatMap merges ++ t.unmerged.map (·.timestamp) =
    t.committed.map (·.timestamp)
  /-- What the writer has reported is recorded. -/
  metadata : ∀ d ∈ t.committed, ∃ m, d.details = .metadata m
  fileGroups : ∀ k ∈ t.mergers, ∃ plan, k.details = .plan plan ∧ t.Gathers plan

variable {t u : Timeline} {e k m : Entry} {init : List Entry}

/-- The completed delta commits are entries. -/
theorem mem_committed : e ∈ t.committed ↔ e ∈ t.entries ∧ e.IsCommitted := by
  rw [committed, List.mem_filter, decide_eq_true_iff]

/-- The compactions are entries. -/
theorem mem_mergers : e ∈ t.mergers ↔ e ∈ t.entries ∧ e.IsMerger := by
  rw [mergers, List.mem_filter, decide_eq_true_iff]

/-- What is not merged are the completed delta commits behind all compactions. -/
theorem mem_unmerged {d : Entry} : d ∈ t.unmerged ↔
    d ∈ t.committed ∧ ∀ last ∈ (t.mergers.map (·.timestamp)).getLast?, last < d.timestamp := by
  rw [unmerged, List.mem_filter, Option.all_eq_true]
  simp only [decide_eq_true_eq, Option.mem_def]

/-- The timestamps and the plans of the compactions stay if an entry is replaced by one that
merges the same, or is no compaction either. -/
theorem map_mergers_upsert (ht : t.IsStrict) (he : e ∈ t.entries)
    (htime : e.timestamp = m.timestamp) (hd : m.details = e.details)
    (hm : m.IsMerger ↔ e.IsMerger) :
    (t.upsert m).mergers.map (fun k => (k.timestamp, k.details)) =
      t.mergers.map fun k => (k.timestamp, k.details) := by
  have hmergers : (t.upsert m).mergers = t.mergers.map fun y => if y = e then m else y :=
    filter_upsert ht he htime (decide_eq_decide.2 hm)
  rw [hmergers, List.map_map]
  refine List.map_congr_left ?_
  intro x _
  show ((if x = e then m else x).timestamp, (if x = e then m else x).details) = _
  split
  · rename_i hx
    rw [hx, htime, hd]
  · rfl

/-- A compaction that has completed is recorded as a completed commit. -/
theorem selects_commits : Filter.commits.completed.selects e.instant = true ↔ e.IsCompacted := by
  simp [Marker.IsCompacted, Filter.selects, Filter.commits, Filter.completed, Filter.withActions,
    Filter.withStates]

/-- The last compaction is the latest one that has completed. -/
theorem exists_of_lastCompaction? {i : Instant} (h : t.lastCompaction? = some i) :
    ∃ e ∈ t.entries, e.instant = i ∧ e.IsCompacted ∧
      ∀ k ∈ t.entries, k.IsCompacted → k.timestamp ≤ e.timestamp := by
  obtain ⟨e, he, rfl, hs, hlast⟩ := exists_of_last? h
  exact ⟨e, he, rfl, selects_commits.1 hs, fun k hk hc => hlast k hk (selects_commits.2 hc)⟩

/-- If nothing is outstanding, the compactions are the completed ones. -/
theorem select_commits (h : ∀ e ∈ t.entries, ¬e.IsOutstanding) :
    t.select Filter.commits.completed = t.mergers.map (·.instant) := by
  have hm : t.mergers = t.entries.filter fun e => Filter.commits.completed.selects e.instant := by
    refine List.filter_congr ?_
    intro e he
    rw [Bool.eq_iff_iff, decide_eq_true_iff, selects_commits]
    exact or_iff_right (h e he)
  rw [hm, select, instants, List.filter_map]
  rfl

/-- If nothing is outstanding, the last compaction is the last completed one. -/
theorem lastCompaction?_eq (h : ∀ e ∈ t.entries, ¬e.IsOutstanding) :
    t.lastCompaction?.map (·.timestamp) = (t.mergers.map (·.timestamp)).getLast? := by
  have hf : t.instants.filter Filter.commits.completed.selects = t.mergers.map (·.instant) :=
    select_commits h
  rw [lastCompaction?, last?, ← List.head?_filter, List.filter_reverse, List.head?_reverse, hf,
    List.getLast?_map, List.getLast?_map, Option.map_map]
  rfl

/-- If nothing is outstanding, what is open is what no plan lists. -/
theorem openDeltaCommits_eq (h : ∀ e ∈ t.entries, ¬e.IsOutstanding) :
    t.openDeltaCommits = t.unmerged.map (·.instant) := by
  rw [openDeltaCommits, lastCompaction?_eq h, deltaCommitsAfter, unmerged, committed,
    List.filter_filter, instants, List.filter_map]
  congr 1
  refine List.filter_congr ?_
  intro e he
  rw [Bool.eq_iff_iff]
  cases (t.mergers.map (·.timestamp)).getLast? with
  | none =>
    simp only [Function.comp_apply, Bool.and_eq_true, decide_eq_true_eq, Instant.isCompleted,
      Option.all_none, and_true, true_and]
    exact Iff.rfl
  | some last =>
    simp only [Function.comp_apply, Bool.and_eq_true, decide_eq_true_eq, Instant.isCompleted,
      Option.all_some]
    exact and_comm

/-- What is recorded of an entry is found by its timestamp. -/
theorem metadata_of_mem (ht : t.IsStrict) (he : e ∈ t.entries) :
    t.metadata e.timestamp = e.details.metadata?.getD .none := by
  rw [metadata, details?, find?_of_mem ht he]
  rfl

/-- Behind the last compaction nothing is merged yet. -/
theorem unmerged_append (hc : u.committed = t.committed ++ [m]) (hm : u.mergers = t.mergers)
    (hlt : ∀ k ∈ t.mergers, k.timestamp < m.timestamp) : u.unmerged = t.unmerged ++ [m] := by
  rw [unmerged, hc, hm, List.filter_append, List.filter_cons_of_pos, List.filter_nil]
  · rfl
  · rw [Option.all_eq_true]
    intro last hl
    obtain ⟨k, hk, rfl⟩ := List.mem_map.1 (List.mem_of_getLast? hl)
    exact decide_eq_true (hlt k hk)

/-- A compaction behind all delta commits leaves nothing open. -/
theorem unmerged_eq_nil (hm : u.mergers = t.mergers ++ [m])
    (hlt : ∀ d ∈ u.committed, d.timestamp < m.timestamp) : u.unmerged = [] := by
  rw [List.eq_nil_iff_forall_not_mem]
  intro d hd
  obtain ⟨hdc, hlast⟩ := mem_unmerged.1 hd
  rw [hm, List.map_append, List.map_singleton, List.getLast?_concat] at hlast
  exact Timestamp.lt_irrefl _ (Timestamp.lt_trans (hlast _ rfl) (hlt d hdc))

/-- Where nothing is outstanding, the next plan lists what is not merged. -/
theorem deltaCommits_nextPlan (h : ∀ e ∈ t.entries, ¬e.IsOutstanding) :
    t.nextPlan.deltaCommits = t.unmerged.map (·.timestamp) := by
  rw [nextPlan, openDeltaCommits_eq h, List.map_map]
  show List.map _ (List.map _ _) = _
  rw [List.map_map]
  rfl

/-- **The next plan gathers what its delta commits have touched.** -/
theorem gathers_nextPlan (ht : t.IsStrict) (h : ∀ e ∈ t.entries, ¬e.IsOutstanding) :
    t.Gathers t.nextPlan where
  sorted := pairwise_sortedSet _
  mem := by
    intro g
    have hg : g ∈ t.nextPlan.fileGroups ↔
        ∃ d ∈ t.unmerged, g ∈ (t.metadata d.timestamp).fileGroups := by
      rw [nextPlan, openDeltaCommits_eq h, List.map_map, Plan.mem_fileGroups]
      simp only [List.mem_map, Function.comp_apply, exists_exists_and_eq_and]
      rfl
    rw [hg, deltaCommits_nextPlan h]
    constructor
    · rintro ⟨d, hd, hgd⟩
      obtain ⟨hdc, -⟩ := mem_unmerged.1 hd
      rw [metadata_of_mem ht (mem_committed.1 hdc).1] at hgd
      refine ⟨d, hdc, List.mem_map_of_mem hd, ?_⟩
      cases hm : d.details with
      | metadata m =>
        rw [hm] at hgd
        exact ⟨m, rfl, hgd⟩
      | empty =>
        rw [hm] at hgd
        cases hgd
      | plan p =>
        rw [hm] at hgd
        cases hgd
    · rintro ⟨d, hdc, hd, m, hm, hgm⟩
      obtain ⟨d', hd', hdt⟩ := List.mem_map.1 hd
      have hde := (mem_committed.1 hdc).1
      have hde' := (mem_committed.1 (mem_unmerged.1 hd').1).1
      obtain rfl := eq_of_timestamp_eq ht hde' hde hdt
      refine ⟨d', hd', ?_⟩
      rw [metadata_of_mem ht hde, hm]
      exact hgm

/-- The file groups of a plan depend on the completed delta commits only. -/
theorem Gathers.of_eq {plan : Plan} (h : t.Gathers plan) (hc : u.committed = t.committed) :
    u.Gathers plan where
  sorted := h.sorted
  mem := by
    rw [hc]
    exact h.mem

namespace Partitioned

/-- The empty timeline has nothing to merge. -/
theorem empty : Timeline.empty.Partitioned where
  deltaCommits := rfl
  metadata := by
    intro d hd
    cases hd
  fileGroups := by
    intro k hk
    cases hk

/-- What a plan lists has completed. -/
theorem exists_committed (h : t.Partitioned) (hk : k ∈ t.mergers) {plan : Plan}
    (hp : k.details = .plan plan) {timestamp : Timestamp} (hm : timestamp ∈ plan.deltaCommits) :
    ∃ d ∈ t.committed, d.timestamp = timestamp := by
  have hmerges : timestamp ∈ t.mergers.flatMap merges := by
    refine List.mem_flatMap.2 ⟨k, hk, ?_⟩
    rw [merges, hp]
    exact hm
  rw [← List.mem_map, ← h.deltaCommits]
  exact List.mem_append_left _ hmerges

/-- Only the completed delta commits count, and the timestamps and plans of the compactions. -/
theorem of_eq (h : t.Partitioned) (hc : u.committed = t.committed)
    (hm : u.mergers.map (fun k => (k.timestamp, k.details)) =
      t.mergers.map fun k => (k.timestamp, k.details)) : u.Partitioned := by
  have htimes : u.mergers.map (·.timestamp) = t.mergers.map (·.timestamp) := by
    have hfst := congrArg (List.map Prod.fst) hm
    rw [List.map_map, List.map_map] at hfst
    exact hfst
  have hmerges : u.mergers.flatMap merges = t.mergers.flatMap merges := by
    have hsnd := congrArg (List.flatMap fun p : Timestamp × Details =>
      (p.2.plan?.getD .empty).deltaCommits) hm
    rw [List.flatMap_map, List.flatMap_map] at hsnd
    exact hsnd
  constructor
  · rw [hmerges, hc, unmerged, hc, htimes]
    exact h.deltaCommits
  · rw [hc]
    exact h.metadata
  · intro k hk
    have hk' : (k.timestamp, k.details) ∈ t.mergers.map fun k => (k.timestamp, k.details) := by
      rw [← hm]
      exact List.mem_map_of_mem hk
    obtain ⟨k', hkt, hp⟩ := List.mem_map.1 hk'
    obtain ⟨plan, hplan, hg⟩ := h.fileGroups k' hkt
    exact ⟨plan, (Prod.mk.inj hp).2 ▸ hplan, hg.of_eq hc⟩

/-- An entry is replaced by one that merges the same, or is no compaction either. -/
theorem replace (h : t.Partitioned) (ht : t.IsStrict) (he : e ∈ t.entries)
    (htime : e.timestamp = m.timestamp) (hd : m.details = e.details)
    (hm : m.IsMerger ↔ e.IsMerger) (hec : ¬e.IsCommitted) (hmc : ¬m.IsCommitted) :
    (t.upsert m).Partitioned := by
  have hcommitted : (t.upsert m).committed = t.committed.map fun y => if y = e then m else y :=
    filter_upsert ht he htime (decide_eq_decide.2 (iff_of_false hmc hec))
  refine h.of_eq ?_ (map_mergers_upsert ht he htime hd hm)
  rw [hcommitted, List.map_congr_left (g := id), List.map_id]
  intro x hx
  refine if_neg ?_
  rintro rfl
  exact hec (mem_committed.1 hx).2

/-- A delta commit that is requested changes nothing yet. -/
theorem request (h : t.Partitioned) (hlt : ∀ x ∈ t.entries, x.timestamp < m.timestamp)
    (ha : m.instant.action = .deltaCommit) (hs : m.instant.state = .requested) :
    (t.upsert m).Partitioned := by
  have hm : ¬m.IsMerger := Marker.not_isMerger_of_deltaCommit ha
  have hc : ¬m.IsCommitted := by
    rintro ⟨-, hc⟩
    cases hs.symm.trans hc
  refine h.of_eq ?_ ?_
  · simp [committed, upsert_of_lt hlt, hc]
  · simp [mergers, upsert_of_lt hlt, hm]

/-- **A compaction takes up where the last one ends,** for none is outstanding. -/
theorem schedule (h : t.Partitioned) (ht : t.IsStrict)
    (hlt : ∀ x ∈ t.entries, x.timestamp < m.timestamp) (hnone : ∀ e ∈ t.entries, ¬e.IsOutstanding)
    (ha : m.instant.action = .compaction) (hs : m.instant.state = .requested)
    (hd : m.details = .plan t.nextPlan) : (t.upsert m).Partitioned := by
  have hm : m.IsMerger := by
    refine .inl ⟨ha, ?_⟩
    rw [hs]
    decide
  have hc : ¬m.IsCommitted := by
    rintro ⟨hc, -⟩
    cases ha.symm.trans hc
  have hcommitted : (t.upsert m).committed = t.committed := by
    simp [committed, upsert_of_lt hlt, hc]
  have hmergers : (t.upsert m).mergers = t.mergers ++ [m] := by
    simp [mergers, upsert_of_lt hlt, hm]
  have hunmerged : (t.upsert m).unmerged = [] := by
    refine unmerged_eq_nil hmergers ?_
    rw [hcommitted]
    exact fun d hd => hlt d (mem_committed.1 hd).1
  have hmerges : merges m = t.unmerged.map (·.timestamp) := by
    rw [merges, hd]
    exact deltaCommits_nextPlan hnone
  constructor
  · rw [hmergers, hunmerged, hcommitted, List.flatMap_append, List.flatMap_singleton, hmerges,
      List.map_nil, List.append_nil]
    exact h.deltaCommits
  · rw [hcommitted]
    exact h.metadata
  · intro k hk
    rw [hmergers, List.mem_append, List.mem_singleton] at hk
    rcases hk with hk | rfl
    · obtain ⟨plan, hp, hg⟩ := h.fileGroups k hk
      exact ⟨plan, hp, hg.of_eq hcommitted⟩
    · exact ⟨t.nextPlan, hd, (gathers_nextPlan ht hnone).of_eq hcommitted⟩

/-- **The last delta commit completes behind every compaction,** so it is open. -/
theorem commit (h : t.Partitioned) (ht : t.IsStrict) (he : e ∈ t.entries)
    (hlast : ∀ x ∈ t.entries, x.timestamp ≤ e.timestamp) (ha : e.instant.action = .deltaCommit)
    (hs : e.instant.state ≠ .completed) (htime : e.timestamp = m.timestamp) (hm : m.IsCommitted)
    (hd : ∃ reported, m.details = .metadata reported) : (t.upsert m).Partitioned := by
  obtain ⟨init, hinit⟩ := exists_init ht he hlast
  have hentries := upsert_of_last ht hinit htime
  have hem : ¬e.IsMerger := Marker.not_isMerger_of_deltaCommit ha
  have hmm : ¬m.IsMerger := Marker.not_isMerger_of_deltaCommit hm.1
  have hec : ¬e.IsCommitted := fun hc => hs hc.2
  have hcommitted : (t.upsert m).committed = t.committed ++ [m] := by
    simp [committed, hentries, hinit, hm, hec]
  have hmergers : (t.upsert m).mergers = t.mergers := by
    simp [mergers, hentries, hinit, hmm, hem]
  have hunmerged : (t.upsert m).unmerged = t.unmerged ++ [m] := by
    refine unmerged_append hcommitted hmergers ?_
    intro k hk
    obtain ⟨hke, hkm⟩ := mem_mergers.1 hk
    rw [← htime]
    refine Timestamp.lt_of_le_of_ne (hlast k hke) ?_
    intro hkt
    rw [eq_of_timestamp_eq ht hke he hkt] at hkm
    exact hem hkm
  constructor
  · rw [hmergers, hunmerged, hcommitted, List.map_append, List.map_append, ← List.append_assoc,
      h.deltaCommits]
  · rw [hcommitted]
    intro d hdm
    rcases List.mem_append.1 hdm with hdc | hdm
    · exact h.metadata d hdc
    · rw [List.mem_singleton.1 hdm]
      exact hd
  · intro k hk
    rw [hmergers] at hk
    obtain ⟨plan, hp, hg⟩ := h.fileGroups k hk
    -- what has just completed is in no plan yet
    have hnew : m.timestamp ∉ plan.deltaCommits := by
      intro hmp
      obtain ⟨d, hd, hdt⟩ := h.exists_committed hk hp hmp
      obtain ⟨hde, hdc⟩ := mem_committed.1 hd
      rw [eq_of_timestamp_eq ht hde he (hdt.trans htime.symm)] at hdc
      exact hec hdc
    refine ⟨plan, hp, hg.sorted, ?_⟩
    intro g
    rw [hg.mem, hcommitted]
    constructor
    · rintro ⟨d, hd, hr⟩
      exact ⟨d, List.mem_append_left _ hd, hr⟩
    · rintro ⟨d, hd, hdp, hr⟩
      rcases List.mem_append.1 hd with hd | hd
      · exact ⟨d, hd, hdp, hr⟩
      · rw [List.mem_singleton.1 hd] at hdp
        exact absurd hdp hnew

/-- **Every write keeps the partition.** -/
theorem isInvariant : IsInvariant fun _ t => t.Partitioned := by
  intro created t new t' ht h ha
  cases ha with
  | request hr => exact h.request (Session.lt_of_refusal? hr) rfl rfl
  | schedule hr =>
    exact h.schedule ht (Session.lt_of_refusal? hr) (Session.not_isOutstanding_of_refusal? hr rfl)
      rfl rfl rfl
  | @commit e m he ha hs hlast =>
    refine h.commit ht he hlast ha (by rw [hs]; decide) (e.timestamp_after _ _).symm ⟨?_, rfl⟩
      ⟨m, rfl⟩
    exact Marker.action_after_eq_deltaCommit.2 ha
  | @ingest e he ha hs =>
    have ha' : (e.after .inflight none).instant.action = .deltaCommit :=
      Marker.action_after_eq_deltaCommit.2 ha
    refine h.replace ht he (e.timestamp_after _ _).symm rfl (iff_of_false ?_ ?_) ?_ ?_
    · exact Marker.not_isMerger_of_deltaCommit ha'
    · exact Marker.not_isMerger_of_deltaCommit ha
    · rintro ⟨-, hc⟩
      cases hs.symm.trans hc
    · rintro ⟨-, hc⟩
      cases hc
  | @compact e target he ha hl =>
    have hs := State.ne_completed_of_leads hl
    refine h.replace ht he (e.timestamp_after _ _).symm rfl (iff_of_true ?_ ?_) ?_ ?_
    · exact Marker.isMerger_after_of_compaction ha target none
    · exact .inl ⟨ha, hs⟩
    · exact fun hc => hs hc.2
    · rintro ⟨hc, -⟩
      cases ha.symm.trans (Marker.action_after_eq_deltaCommit.1 hc)

end Partitioned

end Timeline

namespace Pool

/-- Calls that write and compact data in a table begin where all calls before have returned,
with any view. -/
def writers (table : Table) (P : Pool) (u : Table) (op : Operation) (_ : Timeline) : Prop :=
  u = table ∧ op.IsManaged ∧ ∀ task ∈ P.tasks, task.result?.isSome

/-- **No delta commit is lost or compacted twice,** at any moment of calls that come one
after the other, where nothing was stored of the table at first: what is stored is a
timeline that is partitioned. -/
theorem partitioned {base : Storage.Objects} {table : Table} {P : Pool}
    (hempty : ∀ path, table.IsSearched path → base.find? (table.place path) = none)
    (h : ReachableFrom base (writers table) P) :
    ∃ created t, P.history.Holds table created t ∧ t.Partitioned := by
  have hs : P.Serial (·.Kept table fun _ t => t.Partitioned) (fun _ _ _ _ => True) := by
    refine Serial.of_reachable ?_ ?_ ?_ h
    · exact ((History.Holds.of_base hempty).seen .empty).kept
    · intro P u op v ha
      exact ha.2.2
    · rintro P u op v ⟨rfl, hop, -⟩ hs
      refine (Timeline.Partitioned.isInvariant.safe_call hop hs.holds).imp ?_
      intro r w h hw
      exact ⟨hw.kept, trivial⟩
  obtain ⟨t, created, hh, ht⟩ := hs.holds
  exact ⟨created, t, hh, ht⟩

/-- The writer ingests into a file group named like the delta commit. -/
def ingesting (o : Calm) : Calm :=
  { o with ingest := fun timestamp _ => .ok ⟨[timestamp.text], 1⟩ }

/-- Two delta commits are written, and the merge of the compaction that is due then fails. A third
one is written before another session retries. -/
def retried : Pool :=
  let now : Moment := ⟨0, 0, isMoment_zero⟩
  let P := empty.called (ingesting .plain) .sample
    (.createAt ⟨false, 2, .ofSeconds 3600⟩ ⟨"001"⟩ .empty now) .empty
  let P := P.called (ingesting .unmerging) .sample
    (.createAt ⟨true, 2, .ofSeconds 3600⟩ ⟨"002"⟩ .empty now) .empty
  let P := P.called (ingesting .plain) .sample
    (.createAt ⟨false, 2, .ofSeconds 3600⟩ ⟨"1971"⟩ .empty now) .empty
  P.called .plain .sample .retryPending .empty

/-- What is stored then: the plan of the compaction is still the first one. -/
def retriedTimeline : Timeline :=
  let now : Moment := ⟨0, 0, isMoment_zero⟩
  .ofEntries [⟨⟨⟨"001"⟩, .deltaCommit, .completed⟩, .metadata ⟨["001"], 1⟩, now⟩,
    ⟨⟨⟨"002"⟩, .deltaCommit, .completed⟩, .metadata ⟨["002"], 1⟩, now⟩,
    ⟨⟨⟨"19700101000000000"⟩, .commit, .completed⟩, .plan ⟨[⟨"001"⟩, ⟨"002"⟩], ["001", "002"]⟩, now⟩,
    ⟨⟨⟨"1971"⟩, .deltaCommit, .completed⟩, .metadata ⟨["1971"], 1⟩, now⟩]

/-- Every call begins where the calls before have returned. -/
theorem reachable_retried : Reachable (writers .sample) retried := by
  unfold retried
  refine .called (.called (.called (.called .empty ?_) ?_) ?_) ?_ <;>
  exact fun hreturned => ⟨rfl, trivial, hreturned⟩

/-- **A retry follows the first plan,** and what was written after it stays open. -/
theorem partitioned_of_retry :
    Reachable (writers .sample) retried ∧
      (retried.reply? 1 = some (.error (.execution
          "merge failed for compaction 19700101000000000" ["serialization error: disk full"])) ∧
        retried.reply? 3 =
          some (.ok (.compaction (some ⟨⟨"19700101000000000"⟩, .commit, .completed⟩)))) ∧
      ∃ created t, retried.history.Holds .sample created t ∧ t.Partitioned ∧
        t.mergers.map Timeline.merges = [[⟨"001"⟩, ⟨"002"⟩]] ∧
        t.unmerged.map (·.timestamp) = [⟨"1971"⟩] := by
  have hcomputed : (retried.reply? 1 = some (.error (.execution
        "merge failed for compaction 19700101000000000" ["serialization error: disk full"])) ∧
      retried.reply? 3 =
        some (.ok (.compaction (some ⟨⟨"19700101000000000"⟩, .commit, .completed⟩)))) ∧
      (retried.history.objects.entries.map fun x => (x.1, x.2.data)) =
        retriedTimeline.entries.map fun e => (Table.sample.markerAt e.timestamp, e.encode) := by
    decide +kernel
  obtain ⟨created, t, hh, ht⟩ := partitioned (fun _ _ => Storage.Objects.find?_empty _)
    reachable_retried
  have hstored := History.Holds.of_entries (Timeline.isStrict_ofEntries (by decide)) hcomputed.2
    hh.created
  obtain rfl : t = retriedTimeline := hh.unique hstored
  exact ⟨reachable_retried, hcomputed.1, created, _, hh, ht, by decide⟩

end Pool
end CommitTimeline
