/-
# Coordinators one after the other

What the calls that write and compact data make of the timeline that is stored, while
nobody else asks. Each begins with a refresh, so its view is what is stored when it
decides anything, and stays so with each of its writes. One write takes the timeline on
in one of five ways (`Timeline.Advances`). What these keep is kept by every call
(`Timeline.IsInvariant.safe_call`), whatever view it begins with and whatever it is
answered.
-/

import CommitTimeline.Proofs.Session.Serial

namespace CommitTimeline

namespace Timeline

/-- One write of a call that writes or compacts data: what it creates, and the timeline
then. -/
inductive Advances (t : Timeline) : List Marker → Timeline → Prop where
  /-- A delta commit is requested. -/
  | request {timestamp : Timestamp} {now : Moment}
      (h : Session.refusal? t (.requested timestamp .deltaCommit) = none) :
      Advances t [⟨.requested timestamp .deltaCommit, .empty, some now⟩]
        (t.upsert ⟨.requested timestamp .deltaCommit, .empty, some now⟩)
  /-- A delta commit goes in flight. -/
  | ingest {e : Entry} (he : e ∈ t.entries) (ha : e.instant.action = .deltaCommit)
      (hs : e.instant.state = .requested) : Advances t [] (t.upsert (e.after .inflight none))
  /-- The last delta commit completes, with what the writer reports. -/
  | commit {e : Entry} {m : CommitMetadata} (he : e ∈ t.entries)
      (ha : e.instant.action = .deltaCommit) (hs : e.instant.state = .inflight)
      (hlast : ∀ x ∈ t.entries, x.timestamp ≤ e.timestamp) :
      Advances t [] (t.upsert (e.after .completed (some (.metadata m))))
  /-- A compaction of all that is open is requested. -/
  | schedule {timestamp : Timestamp} {now : Moment}
      (h : Session.refusal? t (.requested timestamp .compaction) = none) :
      Advances t [⟨.requested timestamp .compaction, .plan t.nextPlan, some now⟩]
        (t.upsert ⟨.requested timestamp .compaction, .plan t.nextPlan, some now⟩)
  /-- A compaction takes a step. -/
  | compact {e : Entry} {target : State} (he : e ∈ t.entries)
      (ha : e.instant.action = .compaction) (hl : e.instant.state.Leads target) :
      Advances t [] (t.upsert (e.after target none))

/-- What holds of the markers that were created and of the timeline, and stays so. -/
def IsInvariant (J : List Marker → Timeline → Prop) : Prop :=
  ∀ {created t new t'}, t.IsStrict → J created t → Advances t new t' → J (new ++ created) t'

end Timeline

namespace History

variable {h : History} {table : Table} {J : List Marker → Timeline → Prop} {t v : Timeline}
  {task : Nat}

/-- A timeline is all that is stored, and the invariant holds of it. -/
def Seen (h : History) (table : Table) (J : List Marker → Timeline → Prop) (t : Timeline) : Prop :=
  ∃ created, h.Holds table created t ∧ J created t

/-- Some timeline is all that is stored, and the invariant holds of it. -/
def Kept (h : History) (table : Table) (J : List Marker → Timeline → Prop) : Prop :=
  ∃ t, h.Seen table J t

/-- Where a timeline is seen, some timeline is kept. -/
theorem Seen.kept (hs : h.Seen table J t) : h.Kept table J :=
  ⟨t, hs⟩

/-- A timeline that is stored is seen, with the invariant that holds of it. -/
theorem Holds.seen {created : List Marker} (hh : h.Holds table created t) (hj : J created t) :
    h.Seen table J t :=
  ⟨created, hh, hj⟩

/-- While a timeline is all that is stored, what holds of it is kept. -/
theorem Holds.safe_kept {α : Type} {c : Call α} {created : List Marker} (hj : J created t)
    {gives : α → Timeline → History → Prop}
    (hc : c.Safe (Step task) (fun h' => h'.Holds table created t)
      (fun _ h' => h'.Holds table created t) gives v h) :
    c.Safe (Step task) (·.Kept table J) (fun _ h' => h'.Kept table J) gives v h := by
  refine hc.mono ?_ ?_ fun _ _ _ hg => hg
  · intro h' hh
    exact (hh.seen hj).kept
  · intro _ h' hh
    exact (hh.seen hj).kept

/-- What does not write changes nothing. -/
theorem Seen.of_step {h' : History} {e : Exchange} (hs : h.Seen table J t)
    (hstep : Step task h e h') (he : e.write? = none) : h'.Seen table J t := by
  obtain ⟨created, hh, hj⟩ := hs
  refine ⟨created, hh.of_idle (.cons .nil hstep) ?_, hj⟩
  intro f hf
  rw [List.mem_singleton.1 hf]
  exact he

/-- After a refresh the view is seen. -/
theorem Kept.safe_refresh (hk : h.Kept table J) :
    (Session.refresh table).Safe (Step task) (·.Kept table J) (fun _ h' => h'.Kept table J)
      (fun _ w h' => h'.Seen table J w) v h := by
  obtain ⟨t, created, hh, hj⟩ := hk
  refine (Holds.safe_kept hj hh.safe_refresh).imp ?_
  rintro _ w h' ⟨rfl, hh'⟩
  exact hh'.seen hj

/-- An append from the view that is stored keeps what it does not break. -/
theorem Seen.safe_append (hs : h.Seen table J v) (m : Marker)
    (hm : ∀ {created}, v.IsStrict → J created v → Session.refusal? v m.instant = none →
      J (m :: created) (v.upsert m)) :
    (Session.append table m.instant m.details m.requestedAt).Safe (Step task) (·.Kept table J)
      (fun _ h' => h'.Kept table J)
      (fun i w h' => i = m.instant ∧ w = v.upsert m ∧ Session.refusal? v m.instant = none ∧
        h'.Seen table J w) v h := by
  obtain ⟨created, hh, hj⟩ := hs
  refine (Holds.safe_kept hj (hh.safe_append m)).imp ?_
  rintro i w h' ⟨rfl, hr, rfl, hh'⟩
  exact ⟨rfl, rfl, hr, hh'.seen (hm hh.strict hj hr)⟩

/-- A transition keeps what it does not break, whatever the view. -/
theorem Seen.safe_transition (hs : h.Seen table J t) {instant : Instant} {target : State}
    {details : Option Details}
    (hm : ∀ {created e}, t.IsStrict → J created t → e ∈ t.entries → e.instant = instant →
      instant.state.Leads target → J created (t.upsert (e.after target details))) :
    (Session.transition table instant target details).Safe (Step task) (·.Kept table J)
      (fun _ h' => h'.Kept table J)
      (fun i w h' => i = instant.moved target ∧ ∃ e ∈ t.entries, e.instant = instant ∧
        w = v.upsert (e.after target details) ∧
        h'.Seen table J (t.upsert (e.after target details))) v h := by
  obtain ⟨created, hh, hj⟩ := hs
  refine (Holds.safe_kept hj (hh.safe_transition instant target details)).imp ?_
  rintro i w h' ⟨rfl, hl, e, he, hi, rfl, hh'⟩
  exact ⟨rfl, e, he, hi, rfl, hh'.seen (hm hh.strict hj he hi hl)⟩

end History

namespace Timeline.IsInvariant

open History

variable {h : History} {table : Table} {J : List Marker → Timeline → Prop} {v : Timeline}
  {task : Nat} {config : Config} {timestamp : Timestamp} {batch : Batch} {now : Moment}

/-- A compaction that goes in flight is one of the writes. -/
theorem safe_start (hJ : IsInvariant J) (hs : h.Seen table J v) {compaction : Instant}
    (ha : compaction.action = .compaction)
    (hstate : compaction.state = .requested ∨ compaction.state = .inflight) :
    (Compaction.start table compaction).Safe (Step task) (·.Kept table J)
      (fun _ h' => h'.Kept table J)
      (fun i w h' => i = ⟨compaction.timestamp, .compaction, .inflight⟩ ∧ h'.Seen table J w)
      v h := by
  obtain ⟨t, a, s⟩ := compaction
  obtain rfl : a = .compaction := ha
  rcases hstate with hstate | hstate
  · obtain rfl : s = .requested := hstate
    refine (hs.safe_transition ?_).imp ?_
    · intro created e ht hj he hi hl
      exact hJ ht hj (.compact he (by rw [hi]) (by rw [hi]; exact hl))
    · rintro i w h' ⟨rfl, e, -, -, rfl, hs'⟩
      exact ⟨rfl, hs'⟩
  · obtain rfl : s = .inflight := hstate
    exact Call.safe_pure ⟨rfl, hs⟩

/-- An execution is two of the writes with a merge between them. -/
theorem safe_execute (hJ : IsInvariant J) (hs : h.Seen table J v) {compaction : Instant}
    {mode : Mode} (ha : compaction.action = .compaction)
    (hstate : compaction.state = .requested ∨ compaction.state = .inflight) :
    (Compaction.execute table compaction mode).Safe (Step task) (·.Kept table J)
      (fun _ h' => h'.Kept table J) (fun _ w h' => h'.Seen table J w) v h := by
  refine Call.safe_within _ (Call.Safe.bind (hJ.safe_start hs ha hstate) ?_)
  rintro i w g ⟨rfl, hg⟩
  refine Call.safe_view (Call.safe_merge hg.kept ?_)
  intro x g' hx
  have hg' : g'.Seen table J w := hg.of_step hx rfl
  cases x with
  | error x => exact Call.safe_count (Call.safe_log (Call.safe_throw hg'.kept))
  | ok x =>
    refine Call.Safe.bind (hg'.safe_transition ?_) ?_
    · intro created e ht hj he hi hl
      exact hJ ht hj (.compact he (by rw [hi]) (by rw [hi]; exact hl))
    · rintro i w' g'' ⟨rfl, e, -, -, rfl, hs'⟩
      exact Call.safe_count (Call.safe_count (Call.safe_log (Call.safe_pure hs')))

/-- The pending compaction is executed from the view that shows it. -/
theorem safe_completePending (hJ : IsInvariant J) (hs : h.Seen table J v) :
    (Compaction.completePending table).Safe (Step task) (·.Kept table J)
      (fun _ h' => h'.Kept table J)
      (fun _ w h' => h'.Seen table J w) v h := by
  unfold Compaction.completePending
  refine Call.safe_view ?_
  split
  · exact Call.safe_pure hs
  · rename_i pending hp
    obtain ⟨e, he, hei, ha, hstate⟩ := exists_of_pendingCompaction? hp
    refine Call.safe_log (Call.safe_count ?_)
    refine Call.Safe.bind (hJ.safe_execute hs ha hstate) ?_
    intro i w g hg
    exact Call.safe_pure hg

/-- A compaction is scheduled from the view. -/
theorem safe_schedule (hJ : IsInvariant J) (hs : h.Seen table J v) {reason : Reason} :
    (Compaction.schedule table v timestamp reason now).Safe (Step task) (·.Kept table J)
      (fun _ h' => h'.Kept table J)
      (fun i w h' => i = .requested timestamp .compaction ∧ h'.Seen table J w) v h := by
  refine Call.Safe.bind (hs.safe_append
    ⟨.requested timestamp .compaction, .plan v.nextPlan, some now⟩ ?_) ?_
  · intro created ht hj hr
    exact hJ ht hj (.schedule hr)
  rintro i w g ⟨rfl, -, -, hg⟩
  exact Call.safe_log (Call.safe_count (Call.safe_pure ⟨rfl, hg⟩))

/-- A cycle begins with a refresh, and so from what is stored. -/
theorem safe_run (hJ : IsInvariant J) (hk : h.Kept table J) :
    (Compaction.run table config now).Safe (Step task) (·.Kept table J)
      (fun _ h' => h'.Kept table J) (fun _ w h' => h'.Seen table J w) v h := by
  refine Call.safe_within _ (Call.Safe.bind hk.safe_refresh ?_)
  intro _ w g hg
  refine Call.Safe.bind (hJ.safe_completePending hg) ?_
  rintro (o | completed) w g hg
  · refine Call.safe_view ?_
    split
    · exact Call.safe_log (Call.safe_pure hg)
    · refine Call.Safe.bind (hJ.safe_schedule hg) ?_
      rintro i w g ⟨rfl, hg⟩
      split
      · refine Call.Safe.bind (hJ.safe_execute hg rfl (.inl rfl)) ?_
        intro i w g hg
        exact Call.safe_pure hg
      · exact Call.safe_pure hg
  · exact Call.safe_pure hg

/-- A retry begins with a refresh, and so from what is stored. -/
theorem safe_retryPending (hJ : IsInvariant J) (hk : h.Kept table J) :
    (Compaction.retryPending table).Safe (Step task) (·.Kept table J)
      (fun _ h' => h'.Kept table J) (fun _ w h' => h'.Seen table J w) v h := by
  refine Call.Safe.bind hk.safe_refresh ?_
  intro _ w g hg
  exact hJ.safe_completePending hg

/-- Scheduling at a timestamp begins with a refresh, and so from what is stored. -/
theorem safe_scheduleAt (hJ : IsInvariant J) (hk : h.Kept table J) :
    (Compaction.scheduleAt table config timestamp now).Safe (Step task) (·.Kept table J)
      (fun _ h' => h'.Kept table J) (fun _ w h' => h'.Seen table J w) v h := by
  refine Call.Safe.bind hk.safe_refresh ?_
  intro _ w g hg
  refine Call.safe_view ?_
  split
  · exact Call.safe_throw hg.kept
  split
  · exact Call.safe_pure hg
  · refine Call.Safe.bind (hJ.safe_schedule hg) ?_
    rintro i w g ⟨-, hg⟩
    exact Call.safe_pure hg

/-- **A delta commit stays the last one while it is written,** for nobody else appends. -/
theorem safe_writeDelta (hJ : IsInvariant J) (hs : h.Seen table J v) :
    (DeltaCommit.writeDelta table timestamp batch now).Safe (Step task) (·.Kept table J)
      (fun _ h' => h'.Kept table J) (fun _ w h' => h'.Seen table J w) v h := by
  refine Call.Safe.bind (hs.safe_append
    ⟨.requested timestamp .deltaCommit, .empty, some now⟩ ?_) ?_
  · intro created ht hj hr
    exact hJ ht hj (.request hr)
  rintro i w g ⟨rfl, rfl, hr, hg⟩
  have hlast : ∀ x ∈ (v.upsert ⟨.requested timestamp .deltaCommit, .empty, some now⟩).entries,
      x.timestamp ≤ timestamp := by
    intro x hx
    rcases mem_of_mem_upsert hx with rfl | hx
    · exact Timestamp.le_refl _
    · exact Timestamp.le_of_lt (Session.lt_of_refusal? hr x hx)
  refine Call.Safe.bind (hg.safe_transition ?_) ?_
  · intro created e ht hj he hi hl
    exact hJ ht hj (.ingest he (by rw [hi]; rfl) (by rw [hi]; rfl))
  rintro i w g ⟨rfl, e, -, hi, rfl, hg⟩
  refine Call.safe_ingest hg.kept ?_
  intro x g' hx
  have hg' := hg.of_step hx rfl
  cases x with
  | error x => exact Call.safe_count (Call.safe_log (Call.safe_throw hg'.kept))
  | ok m =>
    refine Call.Safe.bind (hg'.safe_transition ?_) ?_
    · intro created e' hstrict hj he' hi' hl
      refine hJ hstrict hj (.commit he' (by rw [hi']; rfl) (by rw [hi']; rfl) ?_)
      have ht : e'.timestamp = timestamp := by
        rw [Marker.timestamp, hi']
        rfl
      intro x hx
      rw [ht]
      rcases mem_of_mem_upsert hx with rfl | hx
      · rw [Marker.timestamp_after, Marker.timestamp, hi]
        exact Timestamp.le_refl _
      · exact hlast x hx
    · rintro i w g ⟨-, e', -, -, rfl, hg⟩
      exact Call.safe_count (Call.safe_log (Call.safe_pure hg))

/-- A delta commit is written, and then a cycle is run. -/
theorem safe_commit (hJ : IsInvariant J) (hs : h.Seen table J v) :
    (DeltaCommit.commit table config timestamp batch now).Safe (Step task) (·.Kept table J)
      (fun _ h' => h'.Kept table J) (fun _ w h' => h'.Seen table J w) v h := by
  refine Call.Safe.bind (Call.safe_within _ (hJ.safe_writeDelta hs)) ?_
  rintro ⟨i, m⟩ w g hg
  dsimp only
  split
  · refine Call.Safe.bind (hJ.safe_run hg.kept) ?_
    intro o w g hg
    exact Call.safe_pure hg
  · exact Call.safe_pure hg

end Timeline.IsInvariant

/-- The calls that write and compact data, and looking at the timeline. -/
def Operation.IsManaged : Operation → Prop
  | append .. | transition .. => False
  | _ => True

open History in
/-- **What every write keeps, every call keeps,** and its view is what is stored when it
returns. -/
theorem Timeline.IsInvariant.safe_call {J : List Marker → Timeline → Prop} (hJ : IsInvariant J)
    {h : History} {table : Table} {v : Timeline} {task : Nat} {op : Operation}
    (hop : op.IsManaged) (hk : h.Kept table J) :
    (op.call table).Safe (Step task) (·.Kept table J) (fun _ h' => h'.Kept table J)
      (fun _ w h' => h'.Seen table J w) v h := by
  cases op with
  | append instant details requestedAt => cases hop
  | transition instant target details => cases hop
  | refresh => exact Call.Safe.bind hk.safe_refresh fun _ _ _ hg => Call.safe_pure hg
  | run config now => exact Call.Safe.bind (hJ.safe_run hk) fun _ _ _ hg => Call.safe_pure hg
  | retryPending =>
    exact Call.Safe.bind (hJ.safe_retryPending hk) fun _ _ _ hg => Call.safe_pure hg
  | scheduleAt config timestamp now =>
    exact Call.Safe.bind (hJ.safe_scheduleAt hk) fun _ _ _ hg => Call.safe_pure hg
  | createAt config timestamp batch now =>
    refine Call.Safe.bind (Call.Safe.bind hk.safe_refresh ?_) fun _ _ _ hg => Call.safe_pure hg
    intro _ w g hg
    exact hJ.safe_commit hg
  | start config batch now =>
    refine Call.Safe.bind (Call.Safe.bind hk.safe_refresh ?_) fun _ _ _ hg => Call.safe_pure hg
    intro _ w g hg
    exact Call.safe_view (hJ.safe_commit hg)

end CommitTimeline
