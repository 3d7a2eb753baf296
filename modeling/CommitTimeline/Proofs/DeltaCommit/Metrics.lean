/-
# Metrics agree with the timeline

Sessions with any views write and compact data in a table, one call after the other. Storage may
fail at any request, and the writer of the table may answer anything. Whenever a call has
returned, the metrics that were raised agree with what is stored (`Account.metrics_agree`): every
compaction that was scheduled has completed or is outstanding, every delta commit that completed
was counted, every failure of the writer was counted, and no compaction has completed by a retry
without having been adopted.

A counter is raised right after the write, or the answer, that it counts, and nothing can fail in
between. So within a call the metrics lag one write behind what is stored (`Account.Lags`) until
they are raised. A compaction that is adopted is counted before it is executed; this one retry
stays in credit until the compaction has completed.
-/

import CommitTimeline.Proofs.Compaction.Partition
import CommitTimeline.Proofs.Compaction.Retry
import CommitTimeline.Proofs.Program.Accounts

namespace CommitTimeline

namespace Timeline

variable {t : Timeline} {e m : Entry} {p : Entry → Bool}

/-- A marker behind all others counts for itself. -/
theorem countP_upsert_of_lt (h : ∀ x ∈ t.entries, x.timestamp < m.timestamp) :
    (t.upsert m).entries.countP p = t.entries.countP p + if p m then 1 else 0 := by
  rw [upsert_of_lt h, List.countP_append, List.countP_singleton]

/-- An entry counts instead of the one whose place it takes. -/
theorem countP_upsert_of_mem (ht : t.IsStrict) (he : e ∈ t.entries)
    (htime : e.timestamp = m.timestamp) :
    (t.upsert m).entries.countP p + (if p e then 1 else 0) =
      t.entries.countP p + if p m then 1 else 0 := by
  obtain ⟨l, l', hl⟩ := List.append_of_mem he
  have hnodup := ht.nodup
  rw [hl, List.nodup_middle, List.nodup_cons, List.mem_append, not_or] at hnodup
  have hid : ∀ k : List Entry, e ∉ k → (k.map fun y => if y = e then m else y) = k := by
    intro k hk
    rw [List.map_congr_left (g := id), List.map_id]
    intro y hy
    refine if_neg ?_
    rintro rfl
    exact hk hy
  rw [upsert_of_mem ht he htime, hl, List.map_append, List.map_cons, if_pos rfl,
    hid l hnodup.1.1, hid l' hnodup.1.2]
  simp only [List.countP_append, List.countP_cons]
  omega

/-- The outstanding compactions are counted among all entries. -/
theorem length_outstanding (t : Timeline) :
    t.outstanding.length = t.entries.countP (·.IsOutstanding) :=
  List.countP_eq_length_filter.symm

/-- The completed delta commits are counted among all entries. -/
theorem length_committed (t : Timeline) :
    t.committed.length = t.entries.countP (·.IsCommitted) :=
  List.countP_eq_length_filter.symm

/-- So many compactions are outstanding, and so many delta commits have completed. -/
def Counts (t : Timeline) (outstanding committed : Nat) : Prop :=
  t.outstanding.length = outstanding ∧ t.committed.length = committed

/-- A marker behind all others counts for itself, as what it is. -/
theorem counts_upsert_of_lt (h : ∀ x ∈ t.entries, x.timestamp < m.timestamp) :
    (t.upsert m).Counts (t.outstanding.length + if m.IsOutstanding then 1 else 0)
      (t.committed.length + if m.IsCommitted then 1 else 0) := by
  simp only [Counts, length_outstanding, length_committed, countP_upsert_of_lt h,
    decide_eq_true_eq, and_self]

/-- A delta commit that is requested counts for nothing yet. -/
theorem counts_request (h : ∀ x ∈ t.entries, x.timestamp < m.timestamp)
    (ha : m.instant.action = .deltaCommit) (hs : m.instant.state = .requested) :
    (t.upsert m).Counts t.outstanding.length t.committed.length := by
  have hcounts := counts_upsert_of_lt h
  rw [if_neg fun ho => Action.noConfusion (ha.symm.trans ho.1),
    if_neg fun hc => State.noConfusion (hs.symm.trans hc.2)] at hcounts
  exact hcounts

/-- A compaction that is requested is outstanding. -/
theorem counts_schedule (h : ∀ x ∈ t.entries, x.timestamp < m.timestamp)
    (ha : m.instant.action = .compaction) (hs : m.instant.state = .requested) :
    (t.upsert m).Counts (t.outstanding.length + 1) t.committed.length := by
  have hcounts := counts_upsert_of_lt h
  rw [if_pos ⟨ha, hs ▸ State.noConfusion⟩,
    if_neg fun hc => Action.noConfusion (ha.symm.trans hc.1)] at hcounts
  exact hcounts

/-- A marker in place of an entry counts for itself, and no more for the entry. -/
theorem counts_upsert_of_mem (ht : t.IsStrict) (he : e ∈ t.entries)
    (htime : e.timestamp = m.timestamp) :
    (t.upsert m).outstanding.length + (if e.IsOutstanding then 1 else 0) =
        t.outstanding.length + (if m.IsOutstanding then 1 else 0) ∧
      (t.upsert m).committed.length + (if e.IsCommitted then 1 else 0) =
        t.committed.length + if m.IsCommitted then 1 else 0 := by
  have houtstanding := countP_upsert_of_mem (p := (·.IsOutstanding)) ht he htime
  have hcommitted := countP_upsert_of_mem (p := (·.IsCommitted)) ht he htime
  simp only [decide_eq_true_eq] at houtstanding hcommitted
  simp only [length_outstanding, length_committed]
  exact ⟨houtstanding, hcommitted⟩

variable {details : Option Details}

/-- What goes in flight counts as before. -/
theorem counts_start (ht : t.IsStrict) (he : e ∈ t.entries) (hs : e.instant.state ≠ .completed) :
    (t.upsert (e.after .inflight details)).Counts t.outstanding.length t.committed.length := by
  obtain ⟨ho, hc⟩ := counts_upsert_of_mem ht he (e.timestamp_after .inflight details).symm
  have hiff : (e.after .inflight details).IsOutstanding ↔ e.IsOutstanding :=
    and_congr_right fun _ => iff_of_true State.noConfusion hs
  have hnot : ¬(e.after .inflight details).IsCommitted := fun h => State.noConfusion h.2
  rw [if_congr hiff rfl rfl] at ho
  rw [if_neg fun h => hs h.2, if_neg hnot] at hc
  exact ⟨Nat.add_right_cancel ho, hc⟩

/-- A compaction that completes is not outstanding any more. -/
theorem counts_compact (ht : t.IsStrict) (he : e ∈ t.entries) (ho : e.IsOutstanding) :
    ∃ n, t.outstanding.length = n + 1 ∧
      (t.upsert (e.after .completed details)).Counts n t.committed.length := by
  obtain ⟨houtstanding, hc⟩ :=
    counts_upsert_of_mem ht he (e.timestamp_after .completed details).symm
  have hnot : ¬(e.after .completed details).IsCommitted := fun h =>
    Action.noConfusion (ho.1.symm.trans (Marker.action_after_eq_deltaCommit.1 h.1))
  rw [if_pos ho, if_neg fun h => h.2 rfl] at houtstanding
  rw [if_neg fun h => ho.2 h.2, if_neg hnot] at hc
  exact ⟨_, houtstanding.symm, rfl, hc⟩

/-- A delta commit that completes is one more. -/
theorem counts_commit (ht : t.IsStrict) (he : e ∈ t.entries)
    (ha : e.instant.action = .deltaCommit) (hs : e.instant.state ≠ .completed) :
    (t.upsert (e.after .completed details)).Counts t.outstanding.length
      (t.committed.length + 1) := by
  obtain ⟨ho, hc⟩ := counts_upsert_of_mem ht he (e.timestamp_after .completed details).symm
  rw [if_neg fun h => Action.noConfusion (ha.symm.trans h.1), if_neg fun h => h.2 rfl] at ho
  rw [if_neg fun h => hs h.2, if_pos ⟨Marker.action_after_eq_deltaCommit.2 ha, rfl⟩] at hc
  exact ⟨ho, hc⟩

end Timeline

/-- How many retries must be in credit for a compaction to complete. -/
def Mode.credit : Mode → Nat
  | .new => 0
  | .retry => 1

namespace Account

variable {s s' : Account} {table : Table} {spare : Nat} {t u : Timeline}

/-- A metric that is raised adds one to the totals that it belongs to. -/
@[simp] theorem total_raise (s : Account) (m : Metric) (name : String)
    (labels : List (String × String)) : (s.raise m).total name labels =
      s.total name labels + if m.name = name ∧ ∀ l ∈ labels, l ∈ m.labels then 1 else 0 :=
  Metric.total_cons name labels m s.raised

/-- A metric tells nothing of the writer. -/
@[simp] theorem failures_raise (s : Account) (m : Metric) : (s.raise m).failures = s.failures :=
  rfl

/-- The metrics of a table agree with a timeline. -/
structure Balanced (s : Account) (table : Table) (spare : Nat) (t : Timeline) : Prop where
  /-- What was scheduled, for whatever reason, has completed, in whatever mode, or is
  outstanding. -/
  compactions : s.total "mantle_compactions_scheduled_total" [("table", table.name)] =
    s.total "mantle_compactions_completed_total" [("table", table.name)] + t.outstanding.length
  deltaCommits :
    s.total "mantle_delta_commits_total" [("table", table.name)] = t.committed.length
  failures : s.total "mantle_execution_failures_total" [("table", table.name)] = s.failures
  /-- What has completed by a retry was adopted, and `spare` more were. -/
  retries :
    s.total "mantle_compactions_completed_total" [("mode", "retry"), ("table", table.name)] +
        spare ≤
      s.total "mantle_compaction_retries_total" [("table", table.name)]

/-- Only the numbers count. -/
theorem Balanced.of_matches (h : s.Balanced table spare t) (hm : s.Matches s')
    (hu : u.Counts t.outstanding.length t.committed.length) : s'.Balanced table spare u := by
  obtain ⟨ho, hc⟩ := hu
  have htotal := hm.total
  constructor
  · rw [htotal _ _ (by decide), htotal _ _ (by decide), ho]
    exact h.compactions
  · rw [htotal _ _ (by decide), hc]
    exact h.deltaCommits
  · rw [htotal _ _ (by decide), hm.failures]
    exact h.failures
  · rw [htotal _ _ (by decide), htotal _ _ (by decide)]
    exact h.retries

section Events

-- A metric shows in the totals of its own name only, so its name says which ones change.

variable (h : s.Balanced table spare t)
include h

/-- A balance that has something to spare holds with less. -/
theorem Balanced.mono {spare' : Nat} (hle : spare' ≤ spare) : s.Balanced table spare' t :=
  { h with retries := (Nat.add_le_add_left hle _).trans h.retries }

/-- A compaction that was requested is counted. -/
theorem Balanced.schedule (hu : u.Counts (t.outstanding.length + 1) t.committed.length)
    (reason : Reason) :
    (s.raise (.compactionsScheduled table.name reason.label)).Balanced table spare u := by
  obtain ⟨ho, hc⟩ := hu
  obtain ⟨hcompactions, hcommits, hfailures, hretries⟩ := h
  constructor <;> simp [Metric.name, Metric.labels] <;> omega

/-- A compaction that is adopted is counted, which leaves one more in credit. -/
theorem Balanced.adopt (state : State) :
    (s.raise (.compactionRetries table.name state)).Balanced table (spare + 1) t := by
  obtain ⟨hcompactions, hcommits, hfailures, hretries⟩ := h
  constructor <;> simp [Metric.name, Metric.labels] <;> omega

/-- A delta commit that has completed is counted. -/
theorem Balanced.commit (hu : u.Counts t.outstanding.length (t.committed.length + 1)) :
    (s.raise (.deltaCommits table.name)).Balanced table spare u := by
  obtain ⟨ho, hc⟩ := hu
  obtain ⟨hcompactions, hcommits, hfailures, hretries⟩ := h
  constructor <;> simp [Metric.name, Metric.labels] <;> omega

/-- A failure of the writer is counted. -/
theorem Balanced.fail (hraised : s'.raised = s.raised) (hfailed : s'.failures = s.failures + 1)
    (action : Action) :
    (s'.raise (.executionFailures table.name action)).Balanced table spare t := by
  obtain ⟨hcompactions, hcommits, hfailures, hretries⟩ := h
  have htotal : ∀ name labels, s'.total name labels = s.total name labels := by
    intro name labels
    rw [total, total, hraised]
  constructor <;> simp [htotal, Metric.name, Metric.labels] <;> omega

end Events

/-- A compaction that has completed is counted, and how long it took is noted. -/
theorem Balanced.complete {mode : Mode} (h : s.Balanced table mode.credit t) {n : Nat}
    (ht : t.outstanding.length = n + 1) (hu : u.Counts n t.committed.length) :
    ((s.raise (.compactionsCompleted table.name mode)).raise
      (.compactionDuration table.name mode)).Balanced table 0 u := by
  obtain ⟨ho, hc⟩ := hu
  obtain ⟨hcompactions, hcommits, hfailures, hretries⟩ := h
  cases mode with
  | new =>
    constructor <;> simp [Metric.name, Metric.labels, Mode.label] <;> omega
  | retry =>
    change _ + 1 ≤ _ at hretries
    constructor <;> simp [Metric.name, Metric.labels, Mode.label] <;> omega

/-- A timeline is all that is stored, and the metrics agree with one that it may have left
behind. -/
structure Lags (s : Account) (table : Table) (spare : Nat) (u t : Timeline) : Prop where
  holds : ∃ created, s.history.Holds table created t
  balanced : s.Balanced table spare u

/-- A timeline is all that is stored, and the metrics agree with it. -/
def Shows (s : Account) (table : Table) (spare : Nat) (t : Timeline) : Prop :=
  s.Lags table spare t t

/-- The metrics agree with what is stored. -/
def Agrees (s : Account) (table : Table) : Prop :=
  ∃ t, s.Shows table 0 t

variable {task : Nat} {v : Timeline}

/-- The timeline that is shown is strict. -/
theorem Shows.strict (hs : s.Shows table spare t) : t.IsStrict := by
  obtain ⟨⟨_, hh⟩, -⟩ := hs
  exact hh.strict

/-- Metrics that agree with something to spare agree. -/
theorem Shows.agrees (hs : s.Shows table spare t) : s.Agrees table :=
  ⟨t, hs.holds, hs.balanced.mono (Nat.zero_le spare)⟩

/-- What counts the same is shown as well as before. -/
theorem Lags.shows (hs : s.Lags table spare u t)
    (ht : t.Counts u.outstanding.length u.committed.length) : s.Shows table spare t :=
  ⟨hs.holds, hs.balanced.of_matches (.refl s) ht⟩

section Writer

variable {e : Exchange}

/-- What the writer does is not seen in storage. -/
theorem Shows.holds_of_ask (hs : s.Shows table spare t) (h : Step task s e s')
    (he : e.request.isReport = false) (hw : e.write? = none) :
    ∃ created, s'.history.Holds table created t := by
  obtain ⟨⟨created, hh⟩, -⟩ := hs
  refine ⟨created, hh.of_idle (.cons .nil (h.of_ask he).1) ?_⟩
  intro f hf
  rw [List.mem_singleton.1 hf]
  exact hw

/-- What the writer does changes nothing that is counted. -/
theorem Shows.of_done (hs : s.Shows table spare t) (h : Step task s e s')
    (he : e.request.isReport = false) (hw : e.write? = none) (hf : e.hasFailed = false) :
    s'.Shows table spare t :=
  ⟨hs.holds_of_ask h he hw, hs.balanced.of_matches (.of_ask h he hf) ⟨rfl, rfl⟩⟩

/-- What the writer fails to do is counted right away. -/
theorem Shows.of_failed (hs : s.Shows table spare t) (h : Step task s e s')
    (he : e.request.isReport = false) (hw : e.write? = none) (hf : e.hasFailed = true)
    (action : Action) : (s'.raise (.executionFailures table.name action)).Agrees table := by
  obtain ⟨-, hraised, hfailures⟩ := h.of_ask he
  rw [hf, if_pos rfl] at hfailures
  obtain ⟨created, hh⟩ := hs.holds_of_ask h he hw
  exact Shows.agrees ⟨⟨created, hh⟩, hs.balanced.fail hraised hfailures action⟩

end Writer

/-- While a timeline is all that is stored, what a session does leaves the metrics in agreement
with it. -/
theorem Shows.ensures {α : Type} {c : Call α} (hs : s.Shows table spare t)
    {gives : List Marker → α → Timeline → History → Prop}
    (hc : ∀ {created}, s.history.Holds table created t →
      c.Safe (History.Step task) (fun h => h.Holds table created t)
        (fun _ h => h.Holds table created t) (gives created) v s.history)
    (ha : c.Asks (Session.Asked table)) :
    c.Ensures task (fun _ s' => s'.Agrees table)
      (fun a w s' => s'.Balanced table spare t ∧ ∃ created, gives created a w s'.history) v s := by
  obtain ⟨⟨created, hh⟩, hb⟩ := hs
  refine ((hc hh).ensures ha).mono ?_ ?_
  · rintro _ s' ⟨hm, hh'⟩
    exact Shows.agrees ⟨⟨created, hh'⟩, hb.of_matches hm ⟨rfl, rfl⟩⟩
  · rintro a w s' ⟨hm, hg⟩
    exact ⟨hb.of_matches hm ⟨rfl, rfl⟩, created, hg⟩

/-- After a refresh the view is the timeline that the metrics agree with. -/
theorem Agrees.ensures_refresh (hs : s.Agrees table) :
    (Session.refresh table).Ensures task (fun _ s' => s'.Agrees table)
      (fun _ w s' => s'.Shows table 0 w) v s := by
  obtain ⟨t, hs⟩ := hs
  refine (hs.ensures (fun hh => hh.safe_refresh) Session.asks_refresh).mono (fun _ _ h => h) ?_
  rintro _ w s' ⟨hb, created, rfl, hh⟩
  exact ⟨⟨created, hh⟩, hb⟩

/-- An append puts its marker, behind all others; the metrics lag behind it. -/
theorem Shows.ensures_append (hs : s.Shows table spare v) (m : Marker) :
    (Session.append table m.instant m.details m.requestedAt).Ensures task
      (fun _ s' => s'.Agrees table)
      (fun i w s' => i = m.instant ∧ w = v.upsert m ∧
        (∀ x ∈ v.entries, x.timestamp < m.timestamp) ∧ s'.Lags table spare v w) v s := by
  refine (hs.ensures (fun hh => hh.safe_append m) (Session.asks_append _ _ _)).mono
    (fun _ _ h => h) ?_
  rintro i w s' ⟨hb, created, rfl, hr, rfl, hh⟩
  exact ⟨rfl, rfl, Session.lt_of_refusal? hr, ⟨_, hh⟩, hb⟩

/-- A transition moves an entry of the view; the metrics lag behind it. -/
theorem Shows.ensures_transition (hs : s.Shows table spare v) (instant : Instant) (target : State)
    (details : Option Details) :
    (Session.transition table instant target details).Ensures task (fun _ s' => s'.Agrees table)
      (fun i w s' => i = instant.moved target ∧ ∃ e ∈ v.entries, e.instant = instant ∧
        w = v.upsert (e.after target details) ∧ s'.Lags table spare v w) v s := by
  refine (hs.ensures (fun hh => hh.safe_transition instant target details)
    (Session.asks_transition _ _ _)).mono (fun _ _ h => h) ?_
  rintro i w s' ⟨hb, created, rfl, -, e, he, hi, rfl, hh⟩
  exact ⟨rfl, e, he, hi, rfl, ⟨created, hh⟩, hb⟩

variable {compaction : Instant}

/-- A compaction that goes in flight is as outstanding as before. -/
theorem Shows.ensures_start (hs : s.Shows table spare v) (ha : compaction.action = .compaction)
    (hstate : compaction.state = .requested ∨ compaction.state = .inflight) :
    (Compaction.start table compaction).Ensures task (fun _ s' => s'.Agrees table)
      (fun i w s' => i = ⟨compaction.timestamp, .compaction, .inflight⟩ ∧
        s'.Shows table spare w) v s := by
  obtain ⟨timestamp, action, state⟩ := compaction
  obtain rfl : action = .compaction := ha
  rcases hstate with hstate | hstate
  · obtain rfl : state = .requested := hstate
    refine (hs.ensures_transition _ _ _).mono (fun _ _ h => h) ?_
    rintro i w s' ⟨rfl, e, he, hi, rfl, hs'⟩
    exact ⟨rfl, hs'.shows (Timeline.counts_start hs.strict he (hi ▸ State.noConfusion))⟩
  · obtain rfl : state = .inflight := hstate
    exact Call.ensures_pure ⟨rfl, hs⟩

/-- **An execution is counted if the compaction completes,** and a merge that fails is. -/
theorem Shows.ensures_execute {mode : Mode} (hs : s.Shows table mode.credit v)
    (ha : compaction.action = .compaction)
    (hstate : compaction.state = .requested ∨ compaction.state = .inflight) :
    (Compaction.execute table compaction mode).Ensures task (fun _ s' => s'.Agrees table)
      (fun _ w s' => s'.Shows table 0 w) v s := by
  refine Call.ensures_within _ ((hs.ensures_start ha hstate).bind ?_)
  rintro i w s ⟨rfl, hs⟩
  -- the credit is kept until the last step is written, and goes with the completion
  refine Call.ensures_view (Call.ensures_merge ?_)
  rintro (x | x) s' hx
  · refine Call.ensures_count (Call.ensures_log (Call.ensures_throw ?_))
    exact hs.of_failed hx rfl rfl rfl .compaction
  · have hs' : s'.Shows table mode.credit w := hs.of_done hx rfl rfl rfl
    refine (hs'.ensures_transition _ _ _).bind ?_
    rintro i w' s'' ⟨rfl, e, he, hi, rfl, hlags⟩
    have ho : e.IsOutstanding := by
      rw [Marker.IsOutstanding, hi]
      exact ⟨rfl, State.noConfusion⟩
    obtain ⟨n, hn, hcounts⟩ := Timeline.counts_compact hs'.strict he ho
    refine Call.ensures_count (Call.ensures_count (Call.ensures_log (Call.ensures_pure ?_)))
    exact ⟨hlags.holds, hlags.balanced.complete hn hcounts⟩

/-- A compaction is adopted before it is executed. -/
theorem Shows.ensures_completePending (hs : s.Shows table 0 v) :
    (Compaction.completePending table).Ensures task (fun _ s' => s'.Agrees table)
      (fun _ w s' => s'.Shows table 0 w) v s := by
  unfold Compaction.completePending
  refine Call.ensures_view ?_
  split
  · exact Call.ensures_pure hs
  · rename_i pending hp
    obtain ⟨e, -, -, ha, hstate⟩ := Timeline.exists_of_pendingCompaction? hp
    refine Call.ensures_log (Call.ensures_count ?_)
    have hadopted : (s.raise (.compactionRetries table.name pending.state)).Shows table
        Mode.retry.credit v := ⟨hs.holds, hs.balanced.adopt pending.state⟩
    refine (hadopted.ensures_execute ha hstate).bind ?_
    intro i w s' hs'
    exact Call.ensures_pure hs'

variable {config : Config} {timestamp : Timestamp} {batch : Batch} {now : Moment}

/-- A compaction that is scheduled is counted once it is appended. -/
theorem Shows.ensures_schedule (hs : s.Shows table 0 v) {reason : Reason} :
    (Compaction.schedule table v timestamp reason now).Ensures task (fun _ s' => s'.Agrees table)
      (fun i w s' => i = .requested timestamp .compaction ∧ s'.Shows table 0 w) v s := by
  refine (hs.ensures_append
    ⟨.requested timestamp .compaction, .plan v.nextPlan, some now⟩).bind ?_
  rintro i w s' ⟨rfl, rfl, hlt, hlags⟩
  refine Call.ensures_log (Call.ensures_count (Call.ensures_pure ⟨rfl, hlags.holds, ?_⟩))
  exact hlags.balanced.schedule (Timeline.counts_schedule hlt rfl rfl) reason

/-- After a cycle the metrics agree with the view, whatever it has done. -/
theorem Agrees.ensures_run (hs : s.Agrees table) :
    (Compaction.run table config now).Ensures task (fun _ s' => s'.Agrees table)
      (fun _ w s' => s'.Shows table 0 w) v s := by
  refine Call.ensures_within _ (hs.ensures_refresh.bind ?_)
  intro _ w s hs
  refine hs.ensures_completePending.bind ?_
  rintro (_ | completed) w s hs
  · refine Call.ensures_view ?_
    split
    · exact Call.ensures_log (Call.ensures_pure hs)
    · refine hs.ensures_schedule.bind ?_
      rintro i w s ⟨rfl, hs⟩
      split
      · have hnew : s.Shows table Mode.new.credit w := hs
        refine (hnew.ensures_execute rfl (.inl rfl)).bind ?_
        intro i w s hs
        exact Call.ensures_pure hs
      · exact Call.ensures_pure hs
  · exact Call.ensures_pure hs

/-- After a retry the metrics agree with the view. -/
theorem Agrees.ensures_retryPending (hs : s.Agrees table) :
    (Compaction.retryPending table).Ensures task (fun _ s' => s'.Agrees table)
      (fun _ w s' => s'.Shows table 0 w) v s := by
  refine hs.ensures_refresh.bind ?_
  intro _ w s hs
  exact hs.ensures_completePending

/-- After a compaction was scheduled, or was not due, the metrics agree with the view. -/
theorem Agrees.ensures_scheduleAt (hs : s.Agrees table) :
    (Compaction.scheduleAt table config timestamp now).Ensures task (fun _ s' => s'.Agrees table)
      (fun _ w s' => s'.Shows table 0 w) v s := by
  refine hs.ensures_refresh.bind ?_
  intro _ w s hs
  refine Call.ensures_view ?_
  split
  · exact Call.ensures_throw hs.agrees
  split
  · exact Call.ensures_pure hs
  · refine hs.ensures_schedule.bind ?_
    rintro i w s ⟨-, hs⟩
    exact Call.ensures_pure hs

/-- **A delta commit is counted if it completes,** and an ingestion that fails is. -/
theorem Shows.ensures_writeDelta (hs : s.Shows table 0 v) :
    (DeltaCommit.writeDelta table timestamp batch now).Ensures task (fun _ s' => s'.Agrees table)
      (fun _ w s' => s'.Shows table 0 w) v s := by
  refine (hs.ensures_append ⟨.requested timestamp .deltaCommit, .empty, some now⟩).bind ?_
  rintro i w s ⟨rfl, rfl, hlt, hlags⟩
  have hs := hlags.shows (Timeline.counts_request hlt rfl rfl)
  refine (hs.ensures_transition _ _ _).bind ?_
  rintro i w s₁ ⟨rfl, e, he, hi, rfl, hlags⟩
  have hs := hlags.shows (Timeline.counts_start hs.strict he (hi ▸ State.noConfusion))
  refine Call.ensures_ingest ?_
  rintro (x | metadata) s₂ hx
  · refine Call.ensures_count (Call.ensures_log (Call.ensures_throw ?_))
    exact hs.of_failed hx rfl rfl rfl .deltaCommit
  · have hs' : s₂.Shows table 0 _ := hs.of_done hx rfl rfl rfl
    refine (hs'.ensures_transition _ _ _).bind ?_
    rintro i w s₃ ⟨rfl, e', he', hi', rfl, hlags⟩
    refine Call.ensures_count (Call.ensures_log (Call.ensures_pure ⟨hlags.holds, ?_⟩))
    exact hlags.balanced.commit
      (Timeline.counts_commit hs'.strict he' (hi' ▸ rfl) (hi' ▸ State.noConfusion))

/-- After a delta commit and its cycle the metrics agree with the view. -/
theorem Shows.ensures_commit (hs : s.Shows table 0 v) :
    (DeltaCommit.commit table config timestamp batch now).Ensures task
      (fun _ s' => s'.Agrees table) (fun _ w s' => s'.Shows table 0 w) v s := by
  refine (Call.ensures_within _ hs.ensures_writeDelta).bind ?_
  rintro ⟨i, m⟩ w s hs
  dsimp only
  split
  · refine hs.agrees.ensures_run.bind ?_
    intro o w s hs
    exact Call.ensures_pure hs
  · exact Call.ensures_pure hs

/-- **Every call leaves the metrics in agreement with what is stored,** whatever it comes to. -/
theorem Agrees.ensures_call {op : Operation} (hop : op.IsManaged) (hs : s.Agrees table) :
    (op.call table).Ensures task (fun _ s' => s'.Agrees table)
      (fun _ w s' => s'.Shows table 0 w) v s := by
  cases op with
  | append instant details requestedAt => cases hop
  | transition instant target details => cases hop
  | refresh => exact hs.ensures_refresh.bind fun _ _ _ hs => Call.ensures_pure hs
  | run config now => exact hs.ensures_run.bind fun _ _ _ hs => Call.ensures_pure hs
  | retryPending => exact hs.ensures_retryPending.bind fun _ _ _ hs => Call.ensures_pure hs
  | scheduleAt config timestamp now =>
    exact hs.ensures_scheduleAt.bind fun _ _ _ hs => Call.ensures_pure hs
  | createAt config timestamp batch now =>
    refine (hs.ensures_refresh.bind ?_).bind fun _ _ _ hs => Call.ensures_pure hs
    intro _ w s hs
    exact hs.ensures_commit
  | start config batch now =>
    refine (hs.ensures_refresh.bind ?_).bind fun _ _ _ hs => Call.ensures_pure hs
    intro _ w s hs
    exact Call.ensures_view hs.ensures_commit

/-- What an account can come to on a storage with some objects, if calls that write and compact
data in a table are made one after the other, by any sessions with any views, and each has returned
before the next begins. -/
inductive Reachable (base : Storage.Objects) (table : Table) : Account → Prop where
  | empty : Reachable base table (on base)
  | call {s s' : Account} {task : Nat} {op : Operation} {view : Timeline}
      {r : Except Error Reply × Timeline} (h : Reachable base table s) (hop : op.IsManaged)
      (hc : ((op.call table).program view).Comes (Step task) s r s') : Reachable base table s'

variable {base : Storage.Objects}

/-- Where nothing is stored of the table, metrics that were never raised agree with it. -/
theorem agrees_on (hempty : ∀ path, table.IsSearched path → base.find? (table.place path) = none) :
    (on base).Agrees table :=
  ⟨.empty, ⟨[], .of_base hempty⟩, ⟨rfl, rfl, rfl, Nat.le_refl _⟩⟩

/-- **Metrics agree with the timeline** whenever a call has returned, however the calls before
have ended: with what is stored, and with how often the writer has failed. -/
theorem metrics_agree
    (hempty : ∀ path, table.IsSearched path → base.find? (table.place path) = none)
    (h : Reachable base table s) :
    ∃ created t, s.history.Holds table created t ∧ s.Balanced table 0 t := by
  have hs : s.Agrees table := by
    induction h with
    | empty => exact agrees_on hempty
    | @call s s' task op view r _ hop hc ih =>
      have hends := ih.ensures_call hop r s' hc
      obtain ⟨e | a, w⟩ := r
      · exact hends
      · exact Shows.agrees hends
  obtain ⟨t, ⟨created, hh⟩, hb⟩ := hs
  exact ⟨created, t, hh, hb⟩

/-- A delta commit is written, its inline cycle fails to merge, and another session retries. -/
theorem metrics_agree_of_retry :
    ∃ s, Reachable .empty .sample s ∧ (s.failures = 1 ∧
      s.raised.reverse = [.deltaCommits "t", .compactionsScheduled "t" "delta_commits",
        .executionFailures "t" .compaction, .compactionRetries "t" .inflight,
        .compactionsCompleted "t" .retry, .compactionDuration "t" .retry]) ∧
      ∃ created t, s.history.Holds .sample created t ∧ s.Balanced .sample 0 t := by
  let create : Operation := .createAt ⟨true, 1, .ofSeconds 1⟩ ⟨"001"⟩ .empty ⟨0, 0, by decide⟩
  let retry : Operation := .retryPending
  have hcreate : create.IsManaged := trivial
  have hretry : retry.IsManaged := trivial
  have hfailed := Reachable.empty.call hcreate
    (comes_run .unmerging 0 ((create.call .sample).program .empty) (on .empty))
  have hretried := hfailed.call hretry
    (comes_run .plain 1 ((retry.call .sample).program .empty) _)
  refine ⟨_, hretried, ?_, metrics_agree (fun _ _ => Storage.Objects.find?_empty _) hretried⟩
  decide +kernel

end Account
end CommitTimeline
