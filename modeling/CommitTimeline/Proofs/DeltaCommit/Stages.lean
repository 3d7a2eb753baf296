/-
# Where a delta commit can fail

A delta commit goes through six stages: it refreshes the view, appends its instant, puts it in
flight, has its records written, completes it, and runs a cycle if compactions run inline. Each
stage is one call that fails or leads to the next stage (`DeltaCommit.Job.call`), and a delta
commit is nothing else than these calls, one after the other (`DeltaCommit.Job.ends_of_createAt`).

What a stage finds is known from the stage alone (`DeltaCommit.Job.Holds`): what lies at the place
of the marker, and what was written there and ingested on the way (`History.deeds`). A call that
leads to the next stage leaves what that stage finds, and one that fails leaves the marker as it
was before (`DeltaCommit.Job.safe_call`). So the stage in which a delta commit fails tells what it
leaves behind (`DeltaCommit.failure_points`).
-/

import CommitTimeline.Proofs.Compaction.Exchanges
import CommitTimeline.Proofs.DeltaCommit.Deeds
import CommitTimeline.Proofs.Program.Records

namespace CommitTimeline

namespace DeltaCommit

/-- What a delta commit is asked to do. -/
structure Job where
  table : Table
  config : Config
  timestamp : Timestamp
  batch : Batch
  now : Moment

/-- How far a delta commit has come, with what it goes on from. -/
inductive Stage where
  | refresh
  | append
  | start (requested : Instant)
  | ingest (inflight : Instant)
  | complete (inflight : Instant) (metadata : CommitMetadata)
  | cycle (completed : Instant) (metadata : CommitMetadata)
  | done (result : DeltaCommit)

namespace Job

/-- The cycle that follows if compactions run inline. -/
def cycle (job : Job) : Call Outcome :=
  if job.config.isInline then Compaction.run job.table job.config job.now else pure .noAction

/-- What a delta commit does in a stage, which fails or leads to the next stage. -/
def call (job : Job) : Stage → Call Stage
  | .refresh => do
    Session.refresh job.table
    return .append
  | .append => do
    let requested ← Session.append job.table (.requested job.timestamp .deltaCommit) .empty
      (some job.now)
    return .start requested
  | .start requested => do
    let inflight ← Session.transition job.table requested .inflight none
    return .ingest inflight
  | .ingest inflight => do
    match ← Call.ingest inflight.timestamp job.batch with
    | .error e =>
      Call.count (.executionFailures job.table.name .deltaCommit)
      Call.log (.ingestFailed e.message)
      throw (e.toExecution s!"ingest failed for delta commit {inflight.timestamp.text}")
    | .ok metadata => return .complete inflight metadata
  | .complete inflight metadata => do
    let completed ← Session.transition job.table inflight .completed (some (.metadata metadata))
    Call.count (.deltaCommits job.table.name)
    Call.log (.committed job.batch.size metadata.fileGroups.length)
    return .cycle completed metadata
  | .cycle completed metadata => do
    let compaction ← job.cycle
    return .done ⟨completed, metadata, compaction⟩
  | .done result => return .done result

/-- The marker as it is requested. -/
def requested (job : Job) : Marker :=
  ⟨.requested job.timestamp .deltaCommit, .empty, some job.now⟩

/-- The marker as it goes in flight. -/
def inflight (job : Job) : Marker :=
  job.requested.after .inflight none

/-- The marker as it completes with what the writer has answered. -/
def completed (job : Job) (metadata : CommitMetadata) : Marker :=
  job.inflight.after .completed (some (.metadata metadata))

/-- Where the marker lies. -/
def place (job : Job) : String :=
  job.table.markerAt job.timestamp

/-- The marker that a stage finds, if it has been appended. -/
def marker? (job : Job) : Stage → Option Marker
  | .refresh | .append => none
  | .start _ => job.requested
  | .ingest _ | .complete _ _ => job.inflight
  | .cycle _ metadata => job.completed metadata
  | .done result => job.completed result.metadata

/-- The instant that a stage goes on from. -/
def instant? : Stage → Option Instant
  | .refresh | .append => none
  | .start i | .ingest i | .complete i _ | .cycle i _ => i
  | .done result => result.instant

/-- What was done before a stage, the latest first. -/
def deeds (job : Job) : Stage → List Deed
  | .refresh | .append => []
  | .start _ => [.wrote job.requested.encode]
  | .ingest _ => [.wrote job.inflight.encode, .wrote job.requested.encode]
  | .complete _ metadata => [.ingested job.timestamp job.batch (.ok metadata),
      .wrote job.inflight.encode, .wrote job.requested.encode]
  | .cycle _ metadata | .done ⟨_, metadata, _⟩ => [.wrote (job.completed metadata).encode,
      .ingested job.timestamp job.batch (.ok metadata),
      .wrote job.inflight.encode, .wrote job.requested.encode]

/-- A cycle may have changed other markers before a stage. -/
def hasCycled (job : Job) : Stage → Bool
  | .done _ => job.config.isInline
  | _ => false

/-- What lies at the place of the marker is what a stage finds there. -/
def Shows (job : Job) (s : Storage.Objects) (stage : Stage) (h : History) : Prop :=
  match job.marker? stage with
  | none => h.objects.find? job.place = s.find? job.place
  | some m => ∃ version, h.objects.find? job.place = some ⟨m.encode, version⟩

/-- What a stage finds, if the delta commit has begun with the first objects. -/
structure Holds (job : Job) (s : Storage.Objects) (stage : Stage) (h : History) : Prop where
  shows : job.Shows s stage h
  deeds : h.deeds job.place = job.deeds stage
  instant : instant? stage = (job.marker? stage).map (·.instant)
  others : job.hasCycled stage = false → ∀ path, path ≠ job.place →
    h.objects.find? path = s.find? path

/-- What has been done where a stage has failed, and with which error. -/
inductive Blames (job : Job) : Stage → Error → List Deed → Prop where
  | ingest {inflight : Instant} {x e : Error}
      (he : e = x.toExecution s!"ingest failed for delta commit {job.timestamp.text}")
      (hkind : ∃ reason sources, e = .execution reason sources)
      (hkept : (∃ reason sources, x = .execution reason sources) → e = x) :
      Blames job (.ingest inflight) e
        (.ingested job.timestamp job.batch (.error x) :: job.deeds (.ingest inflight))
  | other {stage : Stage} {e : Error} (h : ∀ inflight, stage ≠ .ingest inflight) :
      Blames job stage e (job.deeds stage)

/-- What a stage leaves that fails: the marker is as the stage has found it, and only a cycle may
have changed other markers. -/
structure Fails (job : Job) (s : Storage.Objects) (stage : Stage) (e : Error) (h : History) :
    Prop where
  shows : job.Shows s stage h
  deeds : job.Blames stage e (h.deeds job.place)
  others : (∀ completed metadata, stage ≠ .cycle completed metadata) → ∀ path, path ≠ job.place →
    h.objects.find? path = s.find? path

variable {job : Job} {s : Storage.Objects} {stage next : Stage} {h h' : History} {v w : Timeline}
  {m : Marker} {e : Error}

/-- What a job shows at a stage depends only on what is stored at its place. -/
theorem Shows.agrees (hs : job.Shows s stage h) (ha : h.Agrees job.place h') :
    job.Shows s stage h' := by
  unfold Shows at hs ⊢
  rwa [ha.objects]

/-- A marker that a job shows is stored at its place. -/
theorem Shows.exists_find? (hs : job.Shows s stage h) (hm : job.marker? stage = some m) :
    ∃ version, h.objects.find? job.place = some ⟨m.encode, version⟩ := by
  rwa [Shows, hm] at hs

/-- Nothing was done in a stage that fails. -/
theorem Holds.fails (hh : job.Holds s stage h) (ha : h.Agrees job.place h')
    (hs : ∀ inflight, stage ≠ .ingest inflight)
    (hothers : (∀ completed metadata, stage ≠ .cycle completed metadata) →
      ∀ path, path ≠ job.place → h'.objects.find? path = s.find? path) :
    job.Fails s stage e h' where
  shows := hh.shows.agrees ha
  deeds := by
    rw [ha.deeds, hh.deeds]
    exact .other hs
  others := hothers

/-- A stage that leaves a marker leads to the stage that finds it. -/
theorem Holds.wrote (hh : job.Holds s stage h) (hw : h.Wrote job.place m.encode h')
    (hcycle : job.hasCycled stage = false) (hm : job.marker? next = some m)
    (hd : job.deeds next = .wrote m.encode :: job.deeds stage)
    (hi : instant? next = some m.instant) : job.Holds s next h' where
  shows := by
    rw [Shows, hm]
    exact hw.objects
  deeds := by rw [hw.deeds, hh.deeds, hd]
  instant := by
    rw [hi, hm]
    rfl
  others := fun _ path hp => (hw.others path hp).objects.trans (hh.others hcycle path hp)

/-- A stage that takes a step of the marker that it finds leaves the marker moved, or it leaves
everything as it was. -/
theorem Holds.safe_transition (hh : job.Holds s stage h) (hm : job.marker? stage = some m)
    (ht : m.timestamp = job.timestamp) (target : State) (details : Option Details) :
    (Session.transition job.table m.instant target details).Safe (History.Step 0) (fun _ => True)
      (fun _ => h.Rests)
      (fun i _ h' => i = (m.after target details).instant ∧
        h.Wrote job.place (m.after target details).encode h') v h := by
  obtain ⟨version, hplace⟩ := hh.shows.exists_find? hm
  rw [place, ← ht] at hplace ⊢
  exact (Session.safe_transition_of_find? target details hplace).mono (fun _ _ => trivial)
    (fun _ _ ha => ha) fun _ _ _ hw => hw

/-- What the writer answers is all that changes when it is asked to ingest. -/
theorem Holds.of_ingest {inflight : Instant} {x : Except Error CommitMetadata}
    (hh : job.Holds s (.ingest inflight) h)
    (hs : History.Step 0 h ⟨.ingest inflight.timestamp job.batch, x⟩ h') :
    job.Shows s (.ingest inflight) h' ∧
      h'.deeds job.place =
        .ingested job.timestamp job.batch x :: job.deeds (.ingest inflight) ∧
      ∀ path, path ≠ job.place → h'.objects.find? path = s.find? path := by
  obtain rfl : inflight = job.inflight.instant := Option.some.inj hh.instant
  have hobjects : h'.objects = h.objects := hs.leads.eq_of_idle rfl
  have hdeeds : h'.deeds job.place =
      .ingested job.timestamp job.batch x :: h.deeds job.place := by
    cases hs
    rfl
  rw [Shows, hobjects, hdeeds, hh.deeds]
  exact ⟨hh.shows, rfl, hh.others rfl⟩

/-- What follows leaves the marker that has completed as it is. -/
theorem Holds.safe_cycle {completed : Instant} {metadata : CommitMetadata}
    (hh : job.Holds s (.cycle completed metadata) h) :
    job.cycle.Safe (History.Step 0) (fun _ => True) (fun _ h' => h.Agrees job.place h')
      (fun _ _ h' => h.Agrees job.place h' ∧ (job.config.isInline = false → h' = h)) v h := by
  obtain ⟨version, hplace⟩ := hh.shows.exists_find? (m := job.completed metadata) rfl
  unfold cycle
  split
  · rename_i hinline
    refine (Compaction.safe_run_agrees hplace ?_).mono (fun _ _ => trivial) (fun _ _ ha => ha) ?_
    · intro m hm
      obtain rfl := Marker.eq_of_decode?_encode hm
      exact Action.noConfusion
    · intro _ _ h' ha
      refine ⟨ha, fun hc => ?_⟩
      rw [hinline] at hc
      cases hc
  · exact Call.safe_pure ⟨.refl h _, fun _ => rfl⟩

/-- **A stage leads from what it finds to what the next one finds,** and one that fails leaves the
marker as it was. -/
theorem safe_call (hh : job.Holds s stage h) :
    (job.call stage).Safe (History.Step 0) (fun _ => True) (job.Fails s stage)
      (fun next _ h' => job.Holds s next h') v h := by
  -- what a stage has done that leaves everything as it was
  have hfails : ∀ e h', job.hasCycled stage = false → (∀ inflight, stage ≠ .ingest inflight) →
      h.Rests h' → job.Fails s stage e h' := by
    intro e h' hcycle hs ha
    exact hh.fails (ha _) hs fun _ path hp => (ha path).objects.trans (hh.others hcycle path hp)
  cases stage with
  | refresh =>
    refine (Session.safe_refresh_rests.mono (fun _ _ => trivial)
      (fun e h' => hfails e h' rfl fun _ => Stage.noConfusion) fun _ _ _ ha => ha).bind ?_
    intro _ w h' ha
    exact Call.safe_pure ⟨hh.shows.agrees (ha _), (ha _).deeds.trans hh.deeds, rfl,
      fun _ path hp => (ha path).objects.trans (hh.others rfl path hp)⟩
  | append =>
    refine ((Session.safe_append_wrote job.requested).mono (fun _ _ => trivial)
      (fun e h' => hfails e h' rfl fun _ => Stage.noConfusion) fun _ _ _ hw => hw).bind ?_
    rintro i w h' ⟨rfl, -, -, hw⟩
    exact Call.safe_pure (hh.wrote hw rfl rfl rfl rfl)
  | start requested =>
    obtain rfl : requested = job.requested.instant := Option.some.inj hh.instant
    refine (hh.safe_transition (m := job.requested) rfl rfl .inflight none).bind_imp
      (fun e h' => hfails e h' rfl fun _ => Stage.noConfusion) ?_
    rintro i w h' ⟨rfl, hw⟩
    exact Call.safe_pure (hh.wrote hw rfl rfl rfl rfl)
  | ingest inflight =>
    obtain rfl : inflight = job.inflight.instant := Option.some.inj hh.instant
    refine Call.safe_ingest trivial ?_
    intro x h' hx
    obtain ⟨hshows, hdeeds, hothers⟩ := hh.of_ingest hx
    cases x with
    | error x =>
      refine Call.safe_count (Call.safe_log (Call.safe_throw ⟨hshows, ?_, fun _ => hothers⟩))
      rw [hdeeds]
      refine .ingest rfl (x.exists_toExecution _) ?_
      rintro ⟨reason, sources, rfl⟩
      rfl
    | ok metadata => exact Call.safe_pure ⟨hshows, hdeeds, hh.instant, fun _ => hothers⟩
  | complete inflight metadata =>
    obtain rfl : inflight = job.inflight.instant := Option.some.inj hh.instant
    refine (hh.safe_transition (m := job.inflight) rfl rfl .completed
      (some (.metadata metadata))).bind_imp
      (fun e h' => hfails e h' rfl fun _ => Stage.noConfusion) ?_
    rintro i w h' ⟨rfl, hw⟩
    exact Call.safe_count (Call.safe_log (Call.safe_pure (hh.wrote hw rfl rfl rfl rfl)))
  | cycle completed metadata =>
    refine hh.safe_cycle.bind_imp ?_ ?_
    · intro e h' ha
      exact hh.fails ha (fun _ => Stage.noConfusion) fun hc => absurd rfl (hc completed metadata)
    · rintro o w h' ⟨ha, hsame⟩
      refine Call.safe_pure ⟨hh.shows.agrees ha, ha.deeds.trans hh.deeds, hh.instant, ?_⟩
      intro hcycle path hp
      rw [hsame hcycle]
      exact hh.others rfl path hp
  | done result => exact Call.safe_pure hh

/-- A delta commit has come to a stage: each stage before has led to the next one. -/
inductive Reaches (job : Job) (v : Timeline) (h : History) : Stage → Timeline → History → Prop where
  | refresh : Reaches job v h .refresh v h
  | next {stage next : Stage} {w w' : Timeline} {h₁ h₂ : History} (hr : Reaches job v h stage w h₁)
      (hc : ((job.call stage).program w).Comes (History.Records 0) h₁ (.ok next, w') h₂) :
      Reaches job v h next w' h₂

/-- **What a stage finds is known from the stage alone,** however the delta commit has come
there. -/
theorem Reaches.holds (hr : job.Reaches v ⟨[], s⟩ stage w h) : job.Holds s stage h := by
  induction hr with
  | refresh => exact ⟨rfl, rfl, rfl, fun _ _ _ => rfl⟩
  | next _ hc ih => exact (safe_call ih).of_records hc

/-- How a delta commit ends that has begun with some objects: it goes through all stages, or it
fails in one of them. -/
inductive Ends (job : Job) (v : Timeline) (s : Storage.Objects) :
    Except Error DeltaCommit → Timeline → History → Prop where
  | done {result : DeltaCommit} {w : Timeline} {h : History}
      (hr : job.Reaches v ⟨[], s⟩ (.done result) w h) (hh : job.Holds s (.done result) h) :
      Ends job v s (.ok result) w h
  | fails {stage : Stage} {e : Error} {w w' : Timeline} {h h' : History}
      (hr : job.Reaches v ⟨[], s⟩ stage w h) (hh : job.Holds s stage h)
      (hc : ((job.call stage).program w).Comes (History.Records 0) h (.error e, w') h')
      (hf : job.Fails s stage e h') : Ends job v s (.error e) w' h'

/-- A job that reaches its end ends with the result. -/
theorem Reaches.done {result : DeltaCommit} (hr : job.Reaches v ⟨[], s⟩ (.done result) w h) :
    job.Ends v s (.ok result) w h :=
  .done hr hr.holds

/-- A job that fails at the stage it has reached ends with the error. -/
theorem Reaches.fails {w' : Timeline} (hr : job.Reaches v ⟨[], s⟩ stage w h)
    (hc : ((job.call stage).program w).Comes (History.Records 0) h (.error e, w') h') :
    job.Ends v s (.error e) w' h' :=
  .fails hr hr.holds hc ((safe_call hr.holds).of_records hc)

/-- A call that goes on after what is done in a stage fails there, or the next stage is reached. -/
theorem Reaches.of_bind {α β : Type} {c : Call α} {k : α → Call Stage} {f : α → Stage}
    {g : α → Call β} {r : Except Error β} {w' : Timeline} (hr : job.Reaches v ⟨[], s⟩ stage w h)
    (hcall : job.call stage = c >>= k)
    (hk : ∀ a w h, ((k a).program w).Comes (History.Records 0) h (.ok (f a), w) h)
    (hc : ((c >>= g).program w).Comes (History.Records 0) h (r, w') h') :
    (∃ e, r = .error e ∧ job.Ends v s (.error e) w' h') ∨
      ∃ a w₁ h₁, (c.program w).Comes (History.Records 0) h (.ok a, w₁) h₁ ∧
        job.Reaches v ⟨[], s⟩ (f a) w₁ h₁ ∧
        ((g a).program w₁).Comes (History.Records 0) h₁ (r, w') h' := by
  obtain ⟨e, hr', hfailed⟩ | ⟨a, w₁, h₁, hgiven, hnext⟩ := Call.comes_bind_iff.1 hc
  · refine .inl ⟨e, hr', hr.fails ?_⟩
    rw [hcall]
    exact Call.comes_bind_iff.2 (.inl ⟨e, rfl, hfailed⟩)
  · refine .inr ⟨a, w₁, h₁, hgiven, hr.next ?_, hnext⟩
    rw [hcall]
    exact Call.comes_bind_iff.2 (.inr ⟨a, w₁, h₁, hgiven, hk a w₁ h₁⟩)

/-- What is written of a delta commit goes through the stages from the append on. -/
theorem Reaches.of_writeDelta {r : Except Error (Instant × CommitMetadata)} {w' : Timeline}
    (hr : job.Reaches v ⟨[], s⟩ .append w h)
    (hc : ((writeDelta job.table job.timestamp job.batch job.now).program w).Comes
      (History.Records 0) h (r, w') h') :
    (∃ e, r = .error e ∧ job.Ends v s (.error e) w' h') ∨
      ∃ completed metadata, r = .ok (completed, metadata) ∧
        job.Reaches v ⟨[], s⟩ (.cycle completed metadata) w' h' := by
  obtain hfailed | ⟨requested, w₁, h₁, -, hr, hc⟩ := hr.of_bind rfl (fun _ _ _ => .done) hc
  · exact .inl hfailed
  obtain hfailed | ⟨inflight, w₂, h₂, -, hr, hc⟩ := hr.of_bind rfl (fun _ _ _ => .done) hc
  · exact .inl hfailed
  cases hc with
  | @ask _ _ x _ _ h₃ _ hs hc =>
    cases x with
    | error x =>
      cases Program.Comes.of_report (Program.Comes.of_report hc) with
      | done => exact .inl ⟨_, rfl, hr.fails (.ask hs (.ask .report (.ask .report .done)))⟩
    | ok metadata =>
      replace hr : job.Reaches v ⟨[], s⟩ (.complete inflight metadata) w₂ h₃ :=
        hr.next (.ask hs .done)
      obtain hfailed | ⟨completed, w₃, h₄, -, hr, hc⟩ :=
        hr.of_bind rfl (fun _ _ _ => .ask .report (.ask .report .done)) hc
      · exact .inl hfailed
      cases Program.Comes.of_report (Program.Comes.of_report hc) with
      | done => exact .inr ⟨completed, metadata, rfl, hr⟩

/-- To commit is to write the delta commit in a span of its own, and then to run the cycle. -/
theorem commit_eq (job : Job) :
    commit job.table job.config job.timestamp job.batch job.now =
      Call.within (.timeline "delta_commit" job.table.name job.timestamp)
        (writeDelta job.table job.timestamp job.batch job.now) >>= fun r =>
        job.cycle >>= fun compaction => pure ⟨r.1, r.2, compaction⟩ := by
  unfold commit cycle
  congr 1
  funext ⟨instant, metadata⟩
  cases job.config.isInline <;> rfl

/-- A delta commit whose timestamp is known goes through the stages from the append on. -/
theorem Reaches.ends_of_commit {r : Except Error DeltaCommit} {w' : Timeline}
    (hr : job.Reaches v ⟨[], s⟩ .append w h)
    (hc : ((commit job.table job.config job.timestamp job.batch job.now).program w).Comes
      (History.Records 0) h (r, w') h') : job.Ends v s r w' h' := by
  rw [commit_eq] at hc
  obtain ⟨e, rfl, hfailed⟩ | ⟨⟨completed, metadata⟩, w₁, h₁, hwritten, hnext⟩ :=
    Call.comes_bind_iff.1 hc
  · obtain ⟨_, ⟨⟩, hends⟩ | ⟨_, _, ⟨⟩, -⟩ := hr.of_writeDelta (Call.comes_of_within hfailed)
    exact hends
  · obtain ⟨_, ⟨⟩, -⟩ | ⟨_, _, ⟨⟩, hr⟩ := hr.of_writeDelta (Call.comes_of_within hwritten)
    obtain ⟨e, rfl, hends⟩ | ⟨outcome, w₂, h₂, -, hr, hdone⟩ :=
      hr.of_bind rfl (fun _ _ _ => .done) hnext
    · exact hends
    · cases hdone with
      | done => exact hr.done

/-- **A delta commit is its stages,** one after the other. -/
theorem ends_of_createAt {r : Except Error DeltaCommit}
    (hc : ((createAt job.table job.config job.timestamp job.batch job.now).program v).Comes
      (History.Records 0) ⟨[], s⟩ (r, w) h) : job.Ends v s r w h := by
  unfold createAt at hc
  obtain ⟨e, rfl, hends⟩ | ⟨_, w₁, h₁, -, hr, hnext⟩ :=
    Reaches.refresh.of_bind rfl (fun _ _ _ => .done) hc
  · exact hends
  · exact hr.ends_of_commit hnext

/-- Where the timestamp is a new one, it is told by what is stored before the first stage. -/
theorem ends_of_start {r : Except Error DeltaCommit} {t : Timeline}
    (ht : t.IsStoredIn job.table s) (htime : job.timestamp = t.newTimestamp job.now)
    (hc : ((start job.table job.config job.batch job.now).program v).Comes
      (History.Records 0) ⟨[], s⟩ (r, w) h) : job.Ends v s r w h := by
  unfold start at hc
  obtain ⟨e, rfl, hends⟩ | ⟨_, w₁, h₁, hrefreshed, hr, hnext⟩ :=
    Reaches.refresh.of_bind rfl (fun _ _ _ => .done) hc
  · exact hends
  · obtain ⟨rfl, -⟩ := (ht.safe_refresh (h := ⟨[], s⟩)).of_records hrefreshed
    rw [Call.program_view_bind, ← htime] at hnext
    exact hr.ends_of_commit hnext

/-- The call commits at the timestamp of the job: one that the caller names, or the one that is
new on a timeline. -/
inductive IsDoneBy (job : Job) (t : Timeline) : Call DeltaCommit → Prop where
  | createAt :
      IsDoneBy job t (createAt job.table job.config job.timestamp job.batch job.now)
  | start (htime : job.timestamp = t.newTimestamp job.now) :
      IsDoneBy job t (start job.table job.config job.batch job.now)

end Job

/-- **What a delta commit leaves behind,** where all that is stored are readable markers at their
places, is told by the stage in which it fails, whatever else fails: the marker is as this stage
has found it, what was written and ingested is what leads there, and no other marker has changed
before the cycle. -/
theorem failure_points {table : Table} {s : Storage.Objects} (hs : s.IsOrderly table) :
    ∃ t : Timeline, t.IsStoredIn table s ∧
      ∀ (job : Job) (c : Call DeltaCommit), job.table = table → job.IsDoneBy t c →
        ∀ v r w h, (c.program v).Comes (History.Records 0) ⟨[], s⟩ (r, w) h →
          job.Ends v s r w h := by
  obtain ⟨t, ht⟩ := Timeline.IsStoredIn.exists_of_places hs
  refine ⟨t, ht, ?_⟩
  rintro job c rfl hjob v r w h hc
  cases hjob with
  | createAt => exact Job.ends_of_createAt hc
  | start htime => exact Job.ends_of_start ht htime hc

/-- The writer fails to ingest, and the delta commit stays in flight. -/
theorem failure_points_of_ingest :
    ∃ (job : Job) (t : Timeline) (c : Call DeltaCommit) (e : Error) (w : Timeline) (h : History),
      Storage.Objects.empty.IsOrderly .sample ∧ t.IsStoredIn .sample .empty ∧
      job.table = .sample ∧ job.IsDoneBy t c ∧
      (c.program .empty).Comes (History.Records 0) ⟨[], .empty⟩ (.error e, w) h ∧
      (e = .execution "ingest failed for delta commit 19700101000000000"
          ["serialization error: disk full"] ∧
        (h.objects.find? job.place).map (·.data) = some job.inflight.encode) ∧
      job.Ends .empty .empty (.error e) w h := by
  let failing : Calm :=
    { Calm.plain with ingest := fun _ _ => .error (.serialization "disk full") }
  let job : Job :=
    ⟨.sample, ⟨true, 1, .ofSeconds 1⟩, ⟨"19700101000000000"⟩, .empty, ⟨0, 0, by decide⟩⟩
  let c : Call DeltaCommit := start .sample job.config job.batch job.now
  have hempty : Timeline.empty.IsStoredIn .sample .empty := .nothing _
  obtain ⟨t, ht, hends⟩ := failure_points hempty.isOrderly
  obtain rfl := hempty.eq ht
  have hjob : job.IsDoneBy .empty c := .start (by decide +kernel)
  have hc := (Account.comes_run failing 0 (c.program .empty) (.on .empty)).records
  have hrun : ((c.program .empty).run (Account.answer failing 0) (.on .empty)).1.1 =
        .error (.execution "ingest failed for delta commit 19700101000000000"
          ["serialization error: disk full"]) ∧
      ((((c.program .empty).run (Account.answer failing 0) (.on .empty)).2.history.objects.find?
        job.place).map (·.data)) = some job.inflight.encode := by
    decide +kernel
  generalize (c.program .empty).run (Account.answer failing 0) (.on .empty) = x at hc hrun
  obtain ⟨⟨r, w⟩, s⟩ := x
  obtain ⟨rfl, hplace⟩ := hrun
  exact ⟨job, .empty, c, _, w, s.history, hempty.isOrderly, hempty, rfl, hjob, hc,
    ⟨rfl, hplace⟩, hends job c rfl hjob _ _ _ _ hc⟩

end DeltaCommit
end CommitTimeline
