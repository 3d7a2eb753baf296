/-
# What a coordinator asks

The calls that write and compact data, followed alone, whatever they are answered.
Each of their exchanges is justified by those before it (`Compaction.Justified`): a
write creates a requested marker, one of a compaction with a plan, or takes a step of
the marker that was read; it completes a compaction only after a merge of it has gone
well; and a merge is asked for a compaction that the call knows of, with the plan of
what it knows. What a call knows is what it has read or written. A merge that goes
wrong is the last thing a call asks, and then it fails with an execution error.
-/

import CommitTimeline.Proofs.Pool
import CommitTimeline.Proofs.Session.Stages
import CommitTimeline.Proofs.Timeline

namespace CommitTimeline

/-- A failure of the writer is an execution error. -/
theorem Error.exists_toExecution (e : Error) (reason : String) :
    ∃ reason' sources, e.toExecution reason = .execution reason' sources := by
  cases e with
  | execution reason' sources => exact ⟨reason', sources, rfl⟩
  | _ => exact ⟨_, _, rfl⟩

/-- The compaction that a cycle reports as completed. -/
def Outcome.completed? : Outcome → Option Instant
  | retried i | executed i => some i
  | noAction | scheduled _ => none

namespace Compaction

/-- A new instant is requested. It is a delta commit, or a compaction with a plan. -/
def Begins (m : Marker) : Prop :=
  m.instant.state = .requested ∧ (m.instant.action = .deltaCommit ∨
    (m.instant.action = .compaction ∧ ∃ plan, m.details = .plan plan))

/-- A step of an instant. Only a delta commit gets new details. -/
def Steps (instant : Instant) (target : State) (details : Option Details) : Prop :=
  instant.state.Leads target ∧ (instant.action ≠ .deltaCommit → details = none)

/-- The marker was read or written in the table. -/
def Known (table : Table) (own : List Exchange) (m : Marker) : Prop :=
  (∃ path data, Exchange.read (table.place path) data ∈ own ∧ Marker.decode? data = some m) ∨
    ∃ condition version,
      Exchange.stored (table.markerAt m.timestamp) m.encode condition version ∈ own

/-- An exchange has its reasons in those before it. -/
structure Justified (table : Table) (before : List Exchange) (e : Exchange) : Prop where
  write : e.write? ≠ none → ∃ m, History.Written table Begins Steps before m e ∧
    (m.instant.action = .commit → ∃ plan, Exchange.merged m.timestamp plan ∈ before)
  merge : ∀ timestamp plan x, e = ⟨.merge timestamp plan, x⟩ → ∃ m m',
    Known table before m ∧ m.timestamp = timestamp ∧ m.instant.action = .compaction ∧
    Known table before m' ∧ m'.timestamp = timestamp ∧ plan = m'.details.plan?.getD .empty

/-- Every exchange is justified. -/
def Sound (table : Table) : List Exchange → Prop
  | [] => True
  | e :: before => Justified table before e ∧ Sound table before

/-- Every exchange is justified, and every merge went well. -/
structure Steady (table : Table) (own : List Exchange) : Prop where
  sound : Sound table own
  merges : ∀ timestamp plan e, ⟨.merge timestamp plan, .error e⟩ ∉ own

/-- What holds when a call fails: all is well, or the last exchange was a merge that went
wrong, and the call fails with an execution error. -/
def Fails (table : Table) (e : Error) (own : List Exchange) : Prop :=
  Steady table own ∨ ∃ timestamp plan x before, own = ⟨.merge timestamp plan, .error x⟩ :: before ∧
    Sound table own ∧ Steady table before ∧ ∃ reason sources, e = .execution reason sources

/-- Every entry of a view was read or written. -/
def Knows (table : Table) (v : Timeline) (own : List Exchange) : Prop :=
  ∀ e ∈ v.entries, Known table own e

variable {table : Table} {own own' : List Exchange} {v : Timeline}

/-- Where nothing was exchanged, nothing has gone wrong. -/
theorem steady_nil : Steady table [] where
  sound := trivial
  merges := by
    intro timestamp plan e h
    cases h

/-- What was known is known later. -/
theorem Known.mono {m : Marker} (h : Known table own m) (hs : own ⊆ own') :
    Known table own' m := by
  rcases h with ⟨path, data, hr, hd⟩ | ⟨condition, version, hw⟩
  · exact .inl ⟨path, data, hs hr, hd⟩
  · exact .inr ⟨condition, version, hs hw⟩

/-- Reading and listing need no reasons. -/
theorem Sound.append_idle (h : Sound table own) (hi : Session.Idle own') :
    Sound table (own' ++ own) := by
  induction own' with
  | nil => exact h
  | cons e own' ih =>
    obtain ⟨hw, r, x, rfl⟩ := hi e List.mem_cons_self
    refine ⟨⟨fun hne => absurd hw hne, ?_⟩, ih fun f hf => hi f (List.mem_cons_of_mem _ hf)⟩
    intro timestamp plan y hy
    cases hy

/-- What writes nothing and merges nothing leaves all in order. -/
theorem Steady.append_idle (h : Steady table own) (hi : Session.Idle own') :
    Steady table (own' ++ own) where
  sound := h.sound.append_idle hi
  merges := by
    intro timestamp plan e he
    rcases List.mem_append.1 he with he | he
    · obtain ⟨-, r, x, hx⟩ := hi _ he
      cases hx
    · exact h.merges timestamp plan e he

/-- A justified exchange that is no merge gone wrong. -/
theorem Steady.cons {e : Exchange} (h : Steady table own) (hj : Justified table own e)
    (he : ∀ timestamp plan x, e ≠ ⟨.merge timestamp plan, .error x⟩) :
    Steady table (e :: own) where
  sound := ⟨hj, h.sound⟩
  merges := by
    intro timestamp plan x hx
    rcases List.mem_cons.1 hx with hx | hx
    · exact he timestamp plan x hx.symm
    · exact h.merges timestamp plan x hx

/-- What was loaded into the view was read. -/
theorem Knows.of_loads {l : List Exchange} (h : Session.Loads table v own) :
    Knows table v (own ++ l) := by
  obtain ⟨-, found, markers, -, hall, rfl⟩ := h
  intro e he
  rw [Timeline.mem_ofEntries] at he
  obtain ⟨path, -, data, hr, hd⟩ := Session.exists_readAt hall he
  exact .inl ⟨_, data, List.mem_append_left l hr, hd⟩

/-- What was written is known, so it may be put into the view. -/
theorem Knows.upsert {m : Marker} {condition : Storage.Precondition} {version : String}
    (h : Knows table v own) (hs : own ⊆ own')
    (hm : Exchange.stored (table.markerAt m.timestamp) m.encode condition version ∈ own') :
    Knows table (v.upsert m) own' := by
  intro e he
  rcases Timeline.mem_of_mem_upsert he with rfl | he
  · exact .inr ⟨condition, version, hm⟩
  · exact (h e he).mono hs

/-- A call that is followed after others and leaves all well when it fails or waits. -/
theorem safe_after {α : Type} {c : Call α} {gives : α → Timeline → List Exchange → Prop}
    (h : c.Safe Alone Session.Idle (fun _ => Session.Idle) gives v []) (hs : Steady table own) :
    c.Safe Alone (Steady table) (Fails table)
      (fun a w l => ∃ l', l = l' ++ own ∧ gives a w l') v own :=
  (Session.safe_after_idle (fun _ => hs.append_idle) h).mono (fun _ hl => hl)
    (fun _ _ hl => .inl hl) fun _ _ _ hg => hg

/-- After a refresh all that is in the view is known. -/
theorem safe_refresh (hs : Steady table own) :
    (Session.refresh table).Safe Alone (Steady table) (Fails table)
      (fun _ w l => Steady table l ∧ Knows table w l) v own := by
  refine (safe_after Session.safe_refresh hs).imp ?_
  rintro _ w _ ⟨l', rfl, hl⟩
  exact ⟨hs.append_idle hl.1, .of_loads hl⟩

/-- What an append leaves: its marker is written and in the view. -/
theorem safe_append {instant : Instant} {details : Details} {requestedAt : Option Moment}
    (hs : Steady table own)
    (hb : instant.action = .deltaCommit ∨
      (instant.action = .compaction ∧ ∃ plan, details = .plan plan)) :
    (Session.append table instant details requestedAt).Safe Alone (Steady table) (Fails table)
      (fun i w l => i = instant ∧ Steady table l ∧ (Knows table v own → Knows table w l) ∧
        ∃ e ∈ w.entries, e.instant = instant) v own := by
  refine (safe_after (Session.safe_append instant details requestedAt) hs).imp ?_
  rintro i w _ ⟨l', rfl, rfl, hr, rfl, version, rfl⟩
  have hstate : i.state = .requested := Session.state_of_refusal? hr
  refine ⟨rfl, hs.cons ⟨fun _ => ⟨_, .created ⟨hstate, hb⟩, ?_⟩, ?_⟩ ?_, ?_, ?_⟩
  · intro hc
    rcases hb with hb | ⟨hb, -⟩
    · exact absurd (hc.symm.trans hb) (by decide)
    · exact absurd (hc.symm.trans hb) (by decide)
  · intro timestamp plan x hx
    cases hx
  · intro timestamp plan x hx
    cases hx
  · intro hk
    exact hk.upsert (List.subset_cons_self _ _) List.mem_cons_self
  · exact ⟨_, Timeline.mem_upsert_self v _, rfl⟩

/-- What a transition leaves: the marker of the moved instant is written and in the view. -/
theorem safe_transition {instant : Instant} {target : State} {details : Option Details}
    (hs : Steady table own) (hd : instant.action ≠ .deltaCommit → details = none)
    (hc : (instant.moved target).action = .commit →
      ∃ plan, Exchange.merged instant.timestamp plan ∈ own) :
    (Session.transition table instant target details).Safe Alone (Steady table) (Fails table)
      (fun i w l => i = instant.moved target ∧ Steady table l ∧
        (Knows table v own → Knows table w l) ∧ ∃ m ∈ w.entries, m.instant = i ∧
          ∃ condition version, Exchange.stored (table.markerAt m.timestamp) m.encode condition
            version ∈ l) v own := by
  refine (safe_after (Session.safe_transition instant target details) hs).imp ?_
  rintro i w _ ⟨l', rfl, rfl, hl, current, m, rfl, hm⟩
  have hinstant : m.instant = instant.moved target := by
    rw [hm.marker]
  obtain ⟨known, data, version, hdec, ho⟩ := hm.exchanges
  have ht : table.markerAt instant.timestamp = table.markerAt m.timestamp := by
    rw [hm.timestamp]
  have hread : Steady table ([.read (table.markerAt instant.timestamp) data,
      .described (table.markerAt instant.timestamp) known] ++ own) :=
    hs.append_idle ((Session.idle_nil.cons_storage rfl).cons_storage rfl)
  rw [ho] at hm ⊢
  have hsub : own ⊆ [Exchange.read (table.markerAt instant.timestamp) data,
      .described (table.markerAt instant.timestamp) known] ++ own := List.subset_append_right _ _
  have hmem : Exchange.stored (table.markerAt m.timestamp) m.encode (.version known.version)
      version ∈ .stored (table.markerAt instant.timestamp) m.encode (.version known.version)
        version :: ([Exchange.read (table.markerAt instant.timestamp) data,
          .described (table.markerAt instant.timestamp) known] ++ own) := by
    rw [ht]
    exact List.mem_cons_self
  refine ⟨rfl, hread.cons ⟨fun _ => ⟨m, .moved hm rfl ⟨hl, hd⟩, ?_⟩, ?_⟩ ?_, ?_, ?_⟩
  · intro ha
    rw [hinstant] at ha
    obtain ⟨plan, hp⟩ := hc ha
    exact ⟨plan, hsub (hm.timestamp ▸ hp)⟩
  · intro timestamp plan x hx
    cases hx
  · intro timestamp plan x hx
    cases hx
  · intro hk
    exact hk.upsert (List.subset_append_right _ _) hmem
  · exact ⟨m, Timeline.mem_upsert_self v m, hinstant, _, version, hmem⟩

/-- The marker of an instant that was written as completed. -/
def Completes (table : Table) (t : Timestamp) (own : List Exchange) : Prop :=
  ∃ (m : Marker) (condition : Storage.Precondition) (version : String),
    m.instant = ⟨t, .commit, .completed⟩ ∧
      Exchange.stored (table.markerAt m.timestamp) m.encode condition version ∈ own

/-- A compaction goes in flight from what is known of it. -/
theorem safe_start {compaction : Instant} (hs : Steady table own) (hk : Knows table v own)
    (ha : compaction.action = .compaction)
    (hstate : compaction.state = .requested ∨ compaction.state = .inflight)
    (he : ∃ e ∈ v.entries, e.instant = compaction) :
    (start table compaction).Safe Alone (Steady table) (Fails table)
      (fun i w l => i = ⟨compaction.timestamp, .compaction, .inflight⟩ ∧ Steady table l ∧
        Knows table w l ∧ ∃ e ∈ w.entries, e.instant = i) v own := by
  obtain ⟨t, a, s⟩ := compaction
  obtain rfl : a = .compaction := ha
  rcases hstate with hstate | hstate
  · obtain rfl : s = .requested := hstate
    refine (safe_transition hs (fun _ => rfl) ?_).imp ?_
    · intro h
      cases h
    · rintro i w l ⟨rfl, hl, hkw, m, hm, hmi, -⟩
      exact ⟨rfl, hl, hkw hk, m, hm, hmi⟩
  · obtain rfl : s = .inflight := hstate
    exact Call.safe_pure ⟨rfl, hs, hk, he⟩

/-- **An execution merges before it completes,** what its view holds as the plan. -/
theorem safe_execute {compaction : Instant} {mode : Mode} (hs : Steady table own)
    (hk : Knows table v own) (ha : compaction.action = .compaction)
    (hstate : compaction.state = .requested ∨ compaction.state = .inflight)
    (he : ∃ e ∈ v.entries, e.instant = compaction) :
    (execute table compaction mode).Safe Alone (Steady table) (Fails table)
      (fun i _ l => i = ⟨compaction.timestamp, .commit, .completed⟩ ∧ Steady table l ∧
        Completes table compaction.timestamp l) v own := by
  refine Call.safe_within _ (Call.Safe.bind (safe_start hs hk ha hstate he) ?_)
  rintro i w l ⟨rfl, hl, hkw, e, hew, hei⟩
  refine Call.safe_view (Call.safe_merge hl ?_)
  obtain ⟨e', hew', het, hplan⟩ := Timeline.exists_planAt hew
  have ht : e.timestamp = compaction.timestamp := by
    rw [Marker.timestamp, hei]
  have hjust : ∀ x, Justified table l
      ⟨.merge compaction.timestamp (w.planAt compaction.timestamp), x⟩ := by
    intro x
    refine ⟨fun hw => absurd rfl hw, ?_⟩
    intro timestamp plan y hy
    cases hy
    refine ⟨e, e', hkw e hew, ht, by rw [hei], hkw e' hew', het.trans ht, ?_⟩
    rw [← hplan, ht]
  rintro x _ rfl
  cases x with
  | error x =>
    refine Call.safe_count (Call.safe_log (Call.safe_throw (.inr ?_)))
    exact ⟨_, _, x, l, rfl, ⟨hjust _, hl.sound⟩, hl, x.exists_toExecution _⟩
  | ok x =>
    have hmerged : Steady table
        (Exchange.merged compaction.timestamp (w.planAt compaction.timestamp) :: l) := by
      refine hl.cons (hjust _) ?_
      intro timestamp plan y hy
      cases hy
    refine Call.Safe.bind (safe_transition hmerged (fun _ => rfl) fun _ =>
      ⟨_, List.mem_cons_self⟩) ?_
    rintro i w' l' ⟨rfl, hl', -, m, -, hmi, condition, version, hm⟩
    refine Call.safe_count (Call.safe_count (Call.safe_log (Call.safe_pure ?_)))
    exact ⟨rfl, hl', m, condition, version, hmi, hm⟩

/-- The pending compaction is merged and completed, or there is none. -/
theorem safe_completePending (hs : Steady table own) (hk : Knows table v own) :
    (completePending table).Safe Alone (Steady table) (Fails table)
      (fun o w l => Steady table l ∧ (o = none → w = v ∧ l = own) ∧
        ∀ i, o = some i → Completes table i.timestamp l) v own := by
  unfold completePending
  refine Call.safe_view ?_
  split
  · refine Call.safe_pure ⟨hs, fun _ => ⟨rfl, rfl⟩, ?_⟩
    intro i hi
    cases hi
  · rename_i pending hp
    obtain ⟨e, he, hei, ha, hstate⟩ := Timeline.exists_of_pendingCompaction? hp
    refine Call.safe_log (Call.safe_count ?_)
    refine Call.Safe.bind (safe_execute hs hk ha hstate ⟨e, he, hei⟩) ?_
    rintro i w l ⟨rfl, hl, hc⟩
    refine Call.safe_pure ⟨hl, ?_, ?_⟩
    · intro h
      cases h
    · rintro _ ⟨⟩
      exact hc

/-- A compaction that is scheduled is known from then on. -/
theorem safe_schedule {t : Timeline} {timestamp : Timestamp} {reason : Reason} {now : Moment}
    (hs : Steady table own) :
    (schedule table t timestamp reason now).Safe Alone (Steady table) (Fails table)
      (fun i w l => i = .requested timestamp .compaction ∧ Steady table l ∧
        (Knows table v own → Knows table w l) ∧ ∃ e ∈ w.entries, e.instant = i) v own := by
  unfold schedule
  refine Call.Safe.bind (safe_append hs (.inr ⟨rfl, _, rfl⟩)) ?_
  rintro _ w l ⟨rfl, hl⟩
  exact Call.safe_log (Call.safe_count (Call.safe_pure ⟨rfl, hl⟩))

/-- A cycle reports as completed what it has completed. -/
theorem safe_run {config : Config} {now : Moment} (hs : Steady table own) :
    (run table config now).Safe Alone (Steady table) (Fails table)
      (fun o _ l => Steady table l ∧ ∀ i, o.completed? = some i → Completes table i.timestamp l)
      v own := by
  refine Call.safe_within _ ?_
  unfold cycle
  refine Call.Safe.bind (safe_refresh hs) ?_
  rintro _ w l ⟨hl, hk⟩
  refine Call.Safe.bind (safe_completePending hl hk) ?_
  rintro o w' l' ⟨hl', hnone, hsome⟩
  cases o with
  | some completed =>
    refine Call.safe_pure ⟨hl', ?_⟩
    rintro _ ⟨⟩
    exact hsome _ rfl
  | none =>
    obtain ⟨rfl, rfl⟩ := hnone rfl
    refine Call.safe_view ?_
    split
    · refine Call.safe_log (Call.safe_pure ⟨hl, ?_⟩)
      intro i hi
      cases hi
    · refine Call.Safe.bind (safe_schedule hl) ?_
      rintro _ w l ⟨rfl, hl, hkw, he⟩
      split
      · refine Call.Safe.bind (safe_execute hl (hkw hk) rfl (.inl rfl) he) ?_
        rintro i w' l' ⟨rfl, hl', hc⟩
        refine Call.safe_pure ⟨hl', ?_⟩
        rintro _ ⟨⟩
        exact hc
      · refine Call.safe_pure ⟨hl, ?_⟩
        intro i hi
        cases hi

/-- A retry reports as completed what it has completed. -/
theorem safe_retryPending (hs : Steady table own) :
    (retryPending table).Safe Alone (Steady table) (Fails table)
      (fun o _ l => Steady table l ∧ ∀ i, o = some i → Completes table i.timestamp l) v own := by
  unfold retryPending
  refine Call.Safe.bind (safe_refresh hs) ?_
  rintro _ w l ⟨hl, hk⟩
  exact (safe_completePending hl hk).imp
    fun o w l h => ⟨h.1, h.2.2⟩

/-- Scheduling at a timestamp completes nothing. -/
theorem safe_scheduleAt {config : Config} {timestamp : Timestamp} {now : Moment}
    (hs : Steady table own) :
    (scheduleAt table config timestamp now).Safe Alone (Steady table) (Fails table)
      (fun _ _ l => Steady table l) v own := by
  unfold scheduleAt
  refine Call.Safe.bind (safe_refresh hs) ?_
  rintro _ w l ⟨hl, -⟩
  refine Call.safe_view ?_
  split
  · exact Call.safe_throw (.inl hl)
  split
  · exact Call.safe_pure hl
  · refine Call.Safe.bind (safe_schedule hl) ?_
    rintro _ w l ⟨rfl, hl, -⟩
    exact Call.safe_pure hl

/-- Writing a delta commit touches no compaction. -/
theorem safe_writeDelta {timestamp : Timestamp} {batch : Batch} {now : Moment}
    (hs : Steady table own) :
    (DeltaCommit.writeDelta table timestamp batch now).Safe Alone (Steady table) (Fails table)
      (fun _ _ l => Steady table l) v own := by
  unfold DeltaCommit.writeDelta
  refine Call.Safe.bind (safe_append hs (.inl rfl)) ?_
  rintro _ w l ⟨rfl, hl, -⟩
  refine Call.Safe.bind (safe_transition hl (fun _ => rfl) ?_) ?_
  · intro h
    cases h
  rintro _ w l ⟨rfl, hl, -⟩
  refine Call.safe_ingest hl ?_
  rintro x _ rfl
  have hingest : Steady table (⟨.ingest timestamp batch, x⟩ :: l) := by
    refine hl.cons ⟨fun hw => absurd rfl hw, ?_⟩ ?_
    · intro timestamp plan y hy
      cases hy
    · intro timestamp plan y hy
      cases hy
  cases x with
  | error x => exact Call.safe_count (Call.safe_log (Call.safe_throw (.inl hingest)))
  | ok metadata =>
    refine Call.Safe.bind (safe_transition hingest (fun h => absurd rfl h) ?_) ?_
    · intro h
      cases h
    rintro _ w l ⟨rfl, hl, -⟩
    exact Call.safe_count (Call.safe_log (Call.safe_pure hl))

/-- A delta commit reports as completed what the cycle after it has completed. -/
theorem safe_commit {config : Config} {timestamp : Timestamp} {batch : Batch} {now : Moment}
    (hs : Steady table own) :
    (DeltaCommit.commit table config timestamp batch now).Safe Alone (Steady table) (Fails table)
      (fun d _ l => Steady table l ∧
        ∀ i, d.compaction.completed? = some i → Completes table i.timestamp l) v own := by
  unfold DeltaCommit.commit
  refine Call.Safe.bind (Call.safe_within _ (safe_writeDelta hs)) ?_
  rintro ⟨i, metadata⟩ w l hl
  dsimp only
  split
  · refine Call.Safe.bind (safe_run hl) ?_
    rintro o w l hl
    exact Call.safe_pure hl
  · refine Call.safe_pure ⟨hl, ?_⟩
    intro i hi
    cases hi

end Compaction
end CommitTimeline
