/-
# Every so many delta commits are compacted

Sessions write delta commits to a table, one after the other, and run a cycle inline after
each of them. They begin with any views, at any moments, and every call gives a result
(`DeltaCommit.Commits`). If `k` delta commits make a compaction due, and the time never does,
then every `k`-th call has executed a compaction, which merges the last `k` in their order, and
the calls between have done nothing (`DeltaCommit.cadence`).

What is stored after the calls is a timeline in step with them (`Timeline.Paced`). A delta
commit is put behind everything else (`DeltaCommit.safe_writeDelta`), so it is open. Either
there are too few open ones still (`Timeline.Paced.wait`), or they are merged and none is left
(`Timeline.Paced.compact`).
-/

import CommitTimeline.Proofs.Compaction.Cycle
import CommitTimeline.Proofs.Program.Leads
import CommitTimeline.Proofs.Pool

namespace CommitTimeline

/-- The marker of a delta commit that was requested at a moment. -/
def DeltaCommit.marker (d : DeltaCommit) (now : Moment) : Marker :=
  ⟨d.instant, .metadata d.metadata, some now⟩

/-- A delta commit is written, under a configuration and at a moment. -/
inductive Operation.Commits (config : Config) (now : Moment) : Operation → Prop where
  | start (batch : Batch) : Commits config now (.start config batch now)
  | createAt (timestamp : Timestamp) (batch : Batch) :
      Commits config now (.createAt config timestamp batch now)

/-- Every `k` steps one more is due. -/
theorem dvd_succ_iff {k n : Nat} (hk : 0 < k) : k ∣ n + 1 ↔ n % k + 1 = k := by
  have hn : k * (n / k) + (n % k + 1) = n + 1 := by
    rw [← Nat.add_assoc, Nat.div_add_mod]
  have hlt := Nat.mod_lt n hk
  rw [← hn, Nat.dvd_add_right (Nat.dvd_mul_right k _)]
  constructor
  · intro h
    have hle := Nat.le_of_dvd (Nat.succ_pos _) h
    omega
  · intro h
    exact ⟨1, h.trans (Nat.mul_one k).symm⟩

namespace Timeline

variable {t u : Timeline} {config : Config} {now : Moment} {k : Nat} {ds : List DeltaCommit}
  {d : DeltaCommit} {c m : Entry}

/-- So much time has passed that a compaction is due. -/
def IsOverdue (t : Timeline) (config : Config) (now : Moment) : Prop :=
  ∃ e ∈ t.elapsed? now, config.maxDeltaTime ≤ e

instance : Decidable (t.IsOverdue config now) :=
  inferInstanceAs (Decidable (∃ e ∈ t.elapsed? now, config.maxDeltaTime ≤ e))

/-- If it is not the time, only the number of open delta commits makes a compaction due. -/
theorem decide_eq_none_iff (hnone : ∀ e ∈ t.entries, ¬e.IsOutstanding)
    (htime : ¬t.IsOverdue config now) :
    t.decide config now = none ↔ t.openDeltaCommits.length < config.maxDeltaCommits.toNat := by
  have helapsed : (t.elapsed? now).filter (fun e => config.maxDeltaTime ≤ e) = none := by
    rw [Option.filter_eq_none_iff]
    intro e he hle
    exact htime ⟨e, he, of_decide_eq_true hle⟩
  unfold decide
  rw [pendingCompaction?_eq_none hnone, helapsed, Option.isSome_none,
    if_neg Bool.false_ne_true]
  dsimp only
  rw [← Nat.not_le, ← Nat.ble_eq]
  cases config.maxDeltaCommits.toNat.ble t.openDeltaCommits.length with
  | true => exact iff_of_false (Option.some_ne_none _) (not_not.2 rfl)
  | false => exact iff_of_true rfl Bool.false_ne_true

/-- What is stored after calls that have written delta commits, one in `k` of which has executed
a compaction. -/
structure Paced (t : Timeline) (k : Nat) (ds : List DeltaCommit) : Prop where
  settled : ∀ e ∈ t.entries, ¬e.IsOutstanding
  committed : t.committed.map (·.instant) = ds.map (·.instant)
  /-- What is open are the last delta commits, too few for a compaction. -/
  unmerged : t.unmerged.map (·.instant) = (ds.drop (ds.length / k * k)).map (·.instant)
  mergers : t.mergers.length = ds.length / k
  /-- Each compaction merges the `k` delta commits behind those that the ones before have merged. -/
  plans : ∀ j c, t.mergers[j]? = some c →
    merges c = ((ds.drop (j * k)).take k).map (·.instant.timestamp)
  /-- Every `k`-th call has executed a compaction, and the others have done nothing. -/
  outcomes : ∀ i d, ds[i]? = some d →
    if k ∣ i + 1 then ∃ c, t.mergers[i / k]? = some c ∧ d.compaction = .executed c.instant
    else d.compaction = .noAction

/-- What is stored when one more delta commit has been written, and no cycle has followed yet. -/
structure Opens (t : Timeline) (k : Nat) (ds : List DeltaCommit) (d : DeltaCommit)
    (u : Timeline) : Prop where
  settled : ∀ e ∈ u.entries, ¬e.IsOutstanding
  committed : u.committed.map (·.instant) = (ds ++ [d]).map (·.instant)
  unmerged : u.unmerged.map (·.instant) = (ds.drop (ds.length / k * k) ++ [d]).map (·.instant)
  mergers : u.mergers = t.mergers

/-- It is open, and so are the ones behind the last compaction. -/
theorem Opens.length_unmerged (h : Opens t k ds d u) :
    u.unmerged.length = ds.length % k + 1 := by
  have hlength := congrArg List.length h.unmerged
  have hdiv := Nat.div_add_mod' ds.length k
  simp only [List.length_map, List.length_append, List.length_drop, List.length_singleton]
    at hlength
  omega

/-- The unmerged timestamps are those behind the last full window, with the new one at the end. -/
theorem Opens.timestamps (h : Opens t k ds d u) : u.unmerged.map (·.timestamp) =
    (ds.drop (ds.length / k * k) ++ [d]).map (·.instant.timestamp) := by
  have htimes := congrArg (List.map Instant.timestamp) h.unmerged
  rw [List.map_map, List.map_map] at htimes
  exact htimes

namespace Paced

/-- The empty timeline is in step before anything is committed. -/
theorem empty (k : Nat) : Timeline.empty.Paced k [] where
  settled := by
    intro e he
    cases he
  committed := rfl
  unmerged := by simp [Timeline.unmerged, Timeline.committed, Timeline.empty]
  mergers := by simp [Timeline.mergers, Timeline.empty]
  plans := by
    intro j c hc
    cases hc
  outcomes := by
    intro i d hd
    cases hd

/-- What is open are the calls modulo `k`. -/
theorem length_unmerged (h : t.Paced k ds) : t.unmerged.length = ds.length % k := by
  have hlength := congrArg List.length h.unmerged
  have hdiv := Nat.div_add_mod' ds.length k
  simp only [List.length_map, List.length_drop] at hlength
  omega

/-- A delta commit that is put behind everything else is open. -/
theorem opens (h : t.Paced k ds) (hlt : ∀ e ∈ t.entries, e.timestamp < d.instant.timestamp)
    (ha : d.instant.action = .deltaCommit) (hs : d.instant.state = .completed) :
    Opens t k ds d (t.upsert (d.marker now)) := by
  have hlt' : ∀ e ∈ t.entries, e.timestamp < (d.marker now).timestamp := hlt
  have hm : (d.marker now).IsCommitted := ⟨ha, hs⟩
  have hmerger : ¬(d.marker now).IsMerger := Marker.not_isMerger_of_deltaCommit ha
  have hcommitted : (t.upsert (d.marker now)).committed = t.committed ++ [d.marker now] := by
    simp [Timeline.committed, upsert_of_lt hlt', hm]
  have hmergers : (t.upsert (d.marker now)).mergers = t.mergers := by
    simp [Timeline.mergers, upsert_of_lt hlt', hmerger]
  have hunmerged : (t.upsert (d.marker now)).unmerged = t.unmerged ++ [d.marker now] :=
    unmerged_append hcommitted hmergers fun c hc => hlt' c (mem_mergers.1 hc).1
  constructor
  · intro e he
    rcases mem_of_mem_upsert he with rfl | he
    · exact fun ho => hmerger (.inl ho)
    · exact h.settled e he
  · rw [hcommitted, List.map_append, List.map_append, h.committed]
    rfl
  · rw [hunmerged, List.map_append, List.map_append, h.unmerged]
    rfl
  · exact hmergers

/-- What a compaction has merged is not changed by one more delta commit. -/
theorem plans_append (h : t.Paced k ds) (hk : 0 < k) {j : Nat} (hc : t.mergers[j]? = some c) :
    merges c = (((ds ++ [d]).drop (j * k)).take k).map (·.instant.timestamp) := by
  obtain ⟨hj, -⟩ := List.getElem?_eq_some_iff.1 hc
  rw [h.mergers, Nat.lt_iff_add_one_le, Nat.le_div_iff_mul_le hk, Nat.succ_mul] at hj
  rw [h.plans j c hc, List.drop_append_of_le_length (by omega),
    List.take_append_of_le_length (by simp; omega)]

/-- What earlier calls have come to is not changed by the last one. -/
theorem outcomes_append (h : t.Paced k ds) {l : List Entry} (hl : u.mergers = t.mergers ++ l)
    (hd : if k ∣ ds.length + 1 then
        ∃ c, u.mergers[ds.length / k]? = some c ∧ d.compaction = .executed c.instant
      else d.compaction = .noAction) {i : Nat} {d' : DeltaCommit}
    (hi : (ds ++ [d])[i]? = some d') :
    if k ∣ i + 1 then ∃ c, u.mergers[i / k]? = some c ∧ d'.compaction = .executed c.instant
    else d'.compaction = .noAction := by
  rcases Nat.lt_or_ge i ds.length with hlt | hge
  · rw [List.getElem?_append_left hlt] at hi
    have houtcome := h.outcomes i d' hi
    split
    · rename_i hdvd
      rw [if_pos hdvd] at houtcome
      obtain ⟨c, hc, hd'⟩ := houtcome
      obtain ⟨hlength, -⟩ := List.getElem?_eq_some_iff.1 hc
      refine ⟨c, ?_, hd'⟩
      rw [hl, List.getElem?_append_left hlength]
      exact hc
    · rename_i hdvd
      rw [if_neg hdvd] at houtcome
      exact houtcome
  · obtain ⟨hlength, -⟩ := List.getElem?_eq_some_iff.1 hi
    rw [List.length_append, List.length_singleton] at hlength
    obtain rfl : i = ds.length := by omega
    rw [List.getElem?_concat_length] at hi
    obtain rfl := Option.some.inj hi
    exact hd

/-- **While there are too few open delta commits,** nothing is done. -/
theorem wait (h : t.Paced k ds) (ho : Opens t k ds d u) (hn : ds.length % k + 1 < k)
    (hd : d.compaction = .noAction) : u.Paced k (ds ++ [d]) := by
  have hk : 0 < k := by omega
  have hdvd : ¬k ∣ ds.length + 1 := fun hc => Nat.ne_of_lt hn ((dvd_succ_iff hk).1 hc)
  have hdiv : (ds ++ [d]).length / k = ds.length / k := by
    rw [List.length_append, List.length_singleton, Nat.succ_div_of_not_dvd hdvd]
  constructor
  · exact ho.settled
  · exact ho.committed
  · rw [hdiv, List.drop_append_of_le_length (Nat.div_mul_le_self _ _)]
    exact ho.unmerged
  · rw [hdiv, ho.mergers]
    exact h.mergers
  · intro j c hc
    rw [ho.mergers] at hc
    exact h.plans_append hk hc
  · intro i d' hi
    refine h.outcomes_append (l := []) ?_ ?_ hi
    · rw [ho.mergers, List.append_nil]
    · rw [if_neg hdvd]
      exact hd

/-- **When there are `k` open delta commits,** they are merged, and none is left. -/
theorem compact (h : t.Paced k ds) (ho : Opens t k ds d u) (hn : ds.length % k + 1 = k)
    (hlt : ∀ e ∈ u.entries, e.timestamp < c.timestamp) (ha : c.instant.action = .commit)
    (hs : c.instant.state = .completed) (hc : merges c = u.unmerged.map (·.timestamp))
    (hd : d.compaction = .executed c.instant) : (u.upsert c).Paced k (ds ++ [d]) := by
  have hk : 0 < k := by omega
  have hdvd : k ∣ ds.length + 1 := (dvd_succ_iff hk).2 hn
  have hdiv : (ds ++ [d]).length / k = ds.length / k + 1 := by
    rw [List.length_append, List.length_singleton, Nat.succ_div_of_dvd hdvd]
  have hmod : ds.length / k * k + k = ds.length + 1 := by
    have hdivmod := Nat.div_add_mod' ds.length k
    omega
  have hmerger : c.IsMerger := .inr ⟨ha, hs⟩
  have hcommit : ¬c.IsCommitted := by
    rintro ⟨hca, -⟩
    cases ha.symm.trans hca
  have hmergers : (u.upsert c).mergers = t.mergers ++ [c] := by
    rw [← ho.mergers]
    simp [Timeline.mergers, upsert_of_lt hlt, hmerger]
  have hcommitted : (u.upsert c).committed = u.committed := by
    simp [Timeline.committed, upsert_of_lt hlt, hcommit]
  have hlast : (t.mergers ++ [c])[ds.length / k]? = some c := by
    rw [← h.mergers]
    exact List.getElem?_concat_length
  constructor
  · intro e he
    rcases mem_of_mem_upsert he with rfl | he
    · rintro ⟨hea, -⟩
      cases ha.symm.trans hea
    · exact ho.settled e he
  · rw [hcommitted]
    exact ho.committed
  · rw [unmerged_eq_nil (ho.mergers ▸ hmergers), hdiv, Nat.succ_mul, hmod, List.drop_eq_nil_of_le]
    · rfl
    · simp
    · rw [hcommitted]
      exact fun e he => hlt e (mem_committed.1 he).1
  · rw [hmergers, hdiv, List.length_append, List.length_singleton, h.mergers]
  · intro j c' hc'
    rw [hmergers] at hc'
    rcases Nat.lt_or_ge j t.mergers.length with hj | hj
    · rw [List.getElem?_append_left hj] at hc'
      exact h.plans_append hk hc'
    · obtain ⟨hlength, -⟩ := List.getElem?_eq_some_iff.1 hc'
      rw [List.length_append, List.length_singleton] at hlength
      obtain rfl : j = t.mergers.length := by omega
      rw [List.getElem?_concat_length] at hc'
      obtain rfl := Option.some.inj hc'
      rw [hc, ho.timestamps, h.mergers, List.drop_append_of_le_length (Nat.div_mul_le_self _ _),
        List.take_of_length_le (by simp; omega)]
  · intro i d' hi
    refine h.outcomes_append hmergers ?_ hi
    rw [if_pos hdvd, hmergers]
    exact ⟨c, hlast, hd⟩

end Paced
end Timeline

namespace DeltaCommit

open Session

variable {table : Table} {t v : Timeline} {config : Config} {now : Moment} {h : History}
  {task k : Nat} {timestamp : Timestamp} {batch : Batch} {ds : List DeltaCommit}
  {d : DeltaCommit} {base s s' : Storage.Objects}

/-- What is requested at a timestamp that nobody may name cannot be read again, so it does not go
in flight. -/
theorem safe_writeDelta_of_not_isValid (hv : ¬timestamp.IsValid) :
    (writeDelta table timestamp batch now).Safe (History.Step task) (fun _ => True)
      (fun _ _ => True) (fun _ _ _ => False) v h := by
  let m : Marker := ⟨.requested timestamp .deltaCommit, .empty, some now⟩
  refine (safe_append_inserts (m := m)).bind_imp (fun _ _ _ => trivial) ?_
  rintro i w h₁ ⟨rfl, -, rfl, version, hobjects⟩
  have hf : h₁.objects.find? (table.markerAt m.timestamp) = some ⟨m.encode, version⟩ := by
    rw [hobjects, Storage.Objects.find?_insert, if_pos rfl]
  have hd : Marker.decode? m.encode = none := by
    rw [Marker.decode?_encode, if_neg fun hm => hv hm.1]
  exact (safe_transition_of_unreadable hf hd).bind_imp (fun _ _ _ => trivial)
    fun _ _ _ hg => hg.elim

/-- **A delta commit completes behind everything else,** if it gives a result. -/
theorem safe_writeDelta (ht : t.IsStoredIn table h.objects) :
    (writeDelta table timestamp batch now).Safe (History.Step task) (fun _ => True)
      (fun _ _ => True)
      (fun r _ h' => r.1 = ⟨timestamp, .deltaCommit, .completed⟩ ∧
        (∀ e ∈ t.entries, e.timestamp < timestamp) ∧
        (t.upsert ⟨r.1, .metadata r.2, some now⟩).IsStoredIn table h'.objects) t h := by
  by_cases hv : timestamp.IsValid
  swap
  · exact (safe_writeDelta_of_not_isValid hv).imp fun _ _ _ hg => hg.elim
  let m : Marker := ⟨.requested timestamp .deltaCommit, .empty, some now⟩
  have hm : m.IsReadable := ⟨hv, trivial⟩
  have hnone : ∀ d ∈ (none : Option Details), d.IsReadable := by
    intro d hd
    cases hd
  refine (ht.safe_append hm).bind_imp (fun _ _ _ => trivial) ?_
  rintro i w h₁ ⟨rfl, hr, rfl, hp₁⟩
  refine (hp₁.stored.safe_move (Timeline.mem_upsert_self t m) .inflight hnone).bind_imp
    (fun _ _ _ => trivial) ?_
  rintro i w h₂ ⟨rfl, rfl, hp₂⟩
  have hp₂' := hp₁.trans ht.strict hp₂ rfl
  refine Call.safe_ingest trivial ?_
  intro x h₃ hx
  rw [← hx.leads.eq_of_idle rfl] at hp₂'
  cases x with
  | error x => exact Call.safe_count (Call.safe_log (Call.safe_throw trivial))
  | ok metadata =>
    have hmetadata : ∀ d ∈ some (Details.metadata metadata), d.IsReadable := by
      rintro d ⟨⟩
      trivial
    refine (hp₂'.stored.safe_move (Timeline.mem_upsert_self t _) .completed hmetadata).bind_imp
      (fun _ _ _ => trivial) ?_
    rintro i w h₄ ⟨rfl, -, hp₄⟩
    have hp := hp₂'.trans ht.strict hp₄ rfl
    exact Call.safe_count (Call.safe_log (Call.safe_pure ⟨rfl, lt_of_refusal? hr, hp.stored⟩))

/-- A delta commit has completed behind everything else, and a cycle has followed. -/
structure Succeeds (table : Table) (t : Timeline) (config : Config) (now : Moment)
    (d : DeltaCommit) (s' : Storage.Objects) : Prop where
  last : ∀ e ∈ t.entries, e.timestamp < d.instant.timestamp
  action : d.instant.action = .deltaCommit
  state : d.instant.state = .completed
  cycled : ∃ s, (t.upsert (d.marker now)).IsStoredIn table s ∧
    Compaction.Cycled table (t.upsert (d.marker now)) config now (fun _ _ _ => True) s
      (.ok d.compaction) s'

/-- A delta commit comes behind everything stored, completes, and is followed by a cycle. -/
theorem safe_commit (ht : t.IsStoredIn table h.objects) (hi : config.isInline = true)
    (hc : config.maxDeltaCommits ≠ 0) :
    (commit table config timestamp batch now).Safe (History.Step task) (fun _ => True)
      (fun _ _ => True) (fun d _ h' => d.Succeeds table t config now h'.objects) t h := by
  refine Call.Safe.bind (Call.safe_within _ (safe_writeDelta ht)) ?_
  rintro ⟨i, metadata⟩ w h₁ ⟨rfl, hlast, hstored⟩
  dsimp only
  rw [if_pos hi]
  refine ((solitary_history task table).safe_run hstored hc fun _ _ _ _ => trivial).bind_imp
    (fun _ _ _ => trivial) ?_
  intro o w h₂ hcycled
  exact Call.safe_pure ⟨hlast, rfl, rfl, h₁.objects, hstored, hcycled⟩

/-- **A call with a result has written a delta commit,** whatever view it begins with. -/
theorem safe_call {op : Operation} (ho : op.Commits config now) (ht : t.IsStoredIn table h.objects)
    (hi : config.isInline = true) (hc : config.maxDeltaCommits ≠ 0) :
    (op.call table).Safe (History.Step task) (fun _ => True) (fun _ _ => True)
      (fun r _ h' => ∀ d, r = .deltaCommit d → d.Succeeds table t config now h'.objects) v h := by
  have hrefreshed : ∀ f : Unit → Call DeltaCommit,
      (∀ h₁ : History, t.IsStoredIn table h₁.objects →
        (f ()).Safe (History.Step task) (fun _ => True) (fun _ _ => True)
          (fun d _ h' => d.Succeeds table t config now h'.objects) t h₁) →
      (do return .deltaCommit (← refresh table >>= f) : Call Reply).Safe (History.Step task)
        (fun _ => True) (fun _ _ => True)
        (fun r _ h' => ∀ d, r = .deltaCommit d → d.Succeeds table t config now h'.objects) v h := by
    intro f hf
    refine Call.Safe.bind (g := fun d _ h' => d.Succeeds table t config now h'.objects) ?_ ?_
    · refine ht.safe_refresh.bind_imp (fun _ _ _ => trivial) ?_
      rintro _ w h₁ ⟨rfl, hobjects⟩
      exact hf h₁ (hobjects ▸ ht)
    · intro d w h₁ hd
      refine Call.safe_pure ?_
      rintro _ ⟨⟩
      exact hd
  cases ho with
  | start batch => exact hrefreshed _ fun h₁ ht₁ => Call.safe_view (safe_commit ht₁ hi hc)
  | createAt timestamp batch => exact hrefreshed _ fun h₁ ht₁ => safe_commit ht₁ hi hc

/-- **One more delta commit** is left open, or it is compacted with those before it. -/
theorem Succeeds.exists_paced (hd : d.Succeeds table t config now s') (ht : t.Paced k ds)
    (hi : config.isInline = true) (hk : 0 < k) (hc : config.maxDeltaCommits.toNat = k)
    (htime : ¬(t.upsert (d.marker now)).IsOverdue config now) :
    ∃ t' : Timeline, t'.IsStoredIn table s' ∧ t'.Paced k (ds ++ [d]) := by
  obtain ⟨hlast, ha, hs, s, hstored, hcycled⟩ := hd
  have hopens : Timeline.Opens t k ds d (t.upsert (d.marker now)) := ht.opens hlast ha hs
  have hcount : (t.upsert (d.marker now)).openDeltaCommits.length = ds.length % k + 1 := by
    rw [Timeline.openDeltaCommits_eq hopens.settled, List.length_map, hopens.length_unmerged]
  have hdue := Timeline.decide_eq_none_iff hopens.settled htime
  rw [hcount, hc] at hdue
  rcases hcycled.inline hopens.settled hi with ⟨hnone, ho, rfl⟩ | ⟨hsome, ho, hnew, hstored'⟩
  · exact ⟨_, hstored, ht.wait hopens (hdue.1 hnone) ho⟩
  · have hlt := Nat.mod_lt ds.length hk
    have hfull : ds.length % k + 1 = k := by
      have hge : ¬ds.length % k + 1 < k := fun hn => hsome (hdue.2 hn)
      omega
    exact ⟨_, hstored', ht.compact hopens hfull hnew rfl rfl
      (Timeline.deltaCommits_nextPlan hopens.settled) ho⟩

/-- Calls that have written delta commits to a table, one after the other, by any sessions with
any views: compactions run inline, `k` delta commits make one due, and the time never does. -/
inductive Commits (table : Table) (k : Nat) (base : Storage.Objects) :
    List DeltaCommit → Storage.Objects → Prop where
  | nil : Commits table k base [] base
  /-- The cycle of the last call decides on what was stored before, with its delta commit. -/
  | snoc {ds : List DeltaCommit} {d : DeltaCommit} {s s' : Storage.Objects} {op : Operation}
      {config : Config} {now : Moment} {v w : Timeline} (h : Commits table k base ds s)
      (ho : op.Commits config now) (hi : config.isInline = true)
      (hc : config.maxDeltaCommits.toNat = k)
      (hr : ((op.call table).program v).Leads s (.ok (.deltaCommit d), w) s')
      (htime : ∀ t : Timeline, t.IsStoredIn table s →
        ¬(t.upsert (d.marker now)).IsOverdue config now) :
      Commits table k base (ds ++ [d]) s'

/-- After a run of commits the stored timeline is in step with them. -/
theorem Commits.exists_paced (h : Commits table k base ds s) (hk : 0 < k)
    (hempty : ∀ path, table.IsSearched path → base.find? (table.place path) = none) :
    ∃ t : Timeline, t.IsStoredIn table s ∧ t.Paced k ds := by
  induction h with
  | nil => exact ⟨.empty, .empty hempty, .empty k⟩
  | @snoc ds d s s' op config now v w _ ho hi hc hr htime ih =>
    obtain ⟨t, ht, hpaced⟩ := ih
    have hne : config.maxDeltaCommits ≠ 0 := by
      intro h0
      rw [h0] at hc
      exact Nat.ne_of_lt hk hc
    have hcall : (op.call table).Safe (History.Step 0) (fun _ => True) (fun _ _ => True)
        (fun r _ h' => ∀ d, r = .deltaCommit d → d.Succeeds table t config now h'.objects) v
        ⟨[], s⟩ := safe_call ho ht hi hne
    obtain ⟨h', rfl, hd⟩ := hcall.of_leads rfl hr
    exact (hd d rfl).exists_paced hpaced hi hk hc (htime t ht)

/-- **Every `k`-th call executes a compaction,** of the last `k` delta commits in their order, and
the calls between do nothing. What is stored after the calls is a timeline that says so: it has
`n / k` completed compactions, `n % k` open delta commits, and no outstanding compaction. -/
theorem cadence (hk : 0 < k)
    (hempty : ∀ path, table.IsSearched path → base.find? (table.place path) = none)
    (h : Commits table k base ds s) :
    ∃ t : Timeline, t.IsStoredIn table s ∧ t.Paced k ds ∧
      t.count Filter.commits.completed = ds.length / k ∧
      t.openDeltaCommits.length = ds.length % k ∧ t.pendingCompaction? = none := by
  obtain ⟨t, ht, hpaced⟩ := h.exists_paced hk hempty
  refine ⟨t, ht, hpaced, ?_, ?_, Timeline.pendingCompaction?_eq_none hpaced.settled⟩
  · rw [Timeline.count, Timeline.select_commits hpaced.settled, List.length_map]
    exact hpaced.mergers
  · rw [Timeline.openDeltaCommits_eq hpaced.settled, List.length_map]
    exact hpaced.length_unmerged

/-- Of two delta commits the second one has had both of them compacted. -/
theorem cadence_of_two :
    ∃ ds s, Commits .sample 2 .empty ds s ∧
      ds.map (·.compaction) =
        [.noAction, .executed ⟨⟨"19700101000000000"⟩, .commit, .completed⟩] ∧
      ∃ t : Timeline, t.IsStoredIn .sample s ∧ t.Paced 2 ds ∧
        t.count Filter.commits.completed = ds.length / 2 ∧
        t.openDeltaCommits.length = ds.length % 2 ∧ t.pendingCompaction? = none := by
  let config : Config := ⟨true, 2, .ofSeconds 3600⟩
  let now : Moment := ⟨0, 0, by decide⟩
  let op₁ : Operation := .createAt config ⟨"001"⟩ .empty now
  let op₂ : Operation := .createAt config ⟨"002"⟩ .empty now
  let d₁ : DeltaCommit := ⟨⟨⟨"001"⟩, .deltaCommit, .completed⟩, .none, .noAction⟩
  let d₂ : DeltaCommit := ⟨⟨⟨"002"⟩, .deltaCommit, .completed⟩, .none,
    .executed ⟨⟨"19700101000000000"⟩, .commit, .completed⟩⟩
  have hempty : ∀ path, Table.sample.IsSearched path →
      Storage.Objects.empty.find? (Table.sample.place path) = none :=
    fun _ _ => Storage.Objects.find?_empty _
  have hr₁ := Calm.plain.leads_run ((op₁.call .sample).program .empty) ⟨.empty, []⟩
  have hruns : (((op₁.call .sample).program .empty).run Calm.plain.answer ⟨.empty, []⟩).1.1 =
        .ok (.deltaCommit d₁) ∧
      ((load .sample).run Calm.plain.answer
        (((op₁.call .sample).program .empty).run Calm.plain.answer ⟨.empty, []⟩).2).1 =
          .ok (Timeline.empty.upsert (d₁.marker now)) ∧
      (((op₂.call .sample).program .empty).run Calm.plain.answer
        (((op₁.call .sample).program .empty).run Calm.plain.answer ⟨.empty, []⟩).2).1.1 =
          .ok (.deltaCommit d₂) := by
    decide +kernel
  obtain ⟨hd₁, hload₁, hd₂⟩ := hruns
  generalize ((op₁.call .sample).program .empty).run Calm.plain.answer ⟨.empty, []⟩ = x
    at hr₁ hd₁ hload₁ hd₂
  obtain ⟨⟨r₁, w₁⟩, s₁⟩ := x
  obtain rfl : r₁ = _ := hd₁
  have hr₂ := Calm.plain.leads_run ((op₂.call .sample).program .empty) s₁
  generalize ((op₂.call .sample).program .empty).run Calm.plain.answer s₁ = y at hr₂ hd₂
  obtain ⟨⟨r₂, w₂⟩, s₂⟩ := y
  obtain rfl : r₂ = _ := hd₂
  have htime₁ : ∀ t : Timeline, t.IsStoredIn .sample .empty →
      ¬(t.upsert (d₁.marker now)).IsOverdue config now := by
    intro t ht
    obtain rfl := (Timeline.IsStoredIn.empty hempty).eq ht
    decide +kernel
  have htime₂ : ∀ t : Timeline, t.IsStoredIn .sample s₁.objects →
      ¬(t.upsert (d₂.marker now)).IsOverdue config now := by
    intro t ht
    rw [ht.load .plain] at hload₁
    obtain rfl := Except.ok.inj hload₁
    decide +kernel
  have hcommits : Commits .sample 2 .empty ([] ++ [d₁] ++ [d₂]) s₂.objects :=
    (Commits.nil.snoc (.createAt ⟨"001"⟩ .empty) rfl rfl hr₁ htime₁).snoc
      (.createAt ⟨"002"⟩ .empty) rfl rfl hr₂ htime₂
  obtain ⟨t, ht, hpaced, hcount, hopen, hpending⟩ := cadence (by decide) hempty hcommits
  exact ⟨_, _, hcommits, rfl, t, ht, hpaced, hcount, hopen, hpending⟩

end DeltaCommit
end CommitTimeline
