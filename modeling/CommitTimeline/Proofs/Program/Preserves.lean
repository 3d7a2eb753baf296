/-
# What every call keeps

What is said of the view of a session together with what a call has asked and been answered may be
kept by every step that a call can take: by loading a view, by putting into it a marker that was
created or moved, and by what does not write (`Session.Maintains`). Then every call keeps it,
whatever it is answered, also if it fails and leaves the view that it has come to
(`Session.Maintains.call`). Calls are put together from a few steps, and there is one rule for each
way to do so (`Call.Preserves.bind` and the others).
-/

import CommitTimeline.Proofs.Session.Coherence

namespace CommitTimeline

namespace Call

variable {α β : Type} {J : Timeline → List Exchange → Prop} {c : Call α}

/-- Followed alone, the call keeps what is said of its view and of its exchanges. -/
def Preserves (J : Timeline → List Exchange → Prop) (c : Call α) : Prop :=
  ∀ v own, J v own →
    (c.program v).Safe Alone (fun own => ∃ v, J v own) (fun r own => J r.2 own) own

/-- One after the other: what both calls keep is kept. -/
theorem Preserves.bind {f : α → Call β} (hc : c.Preserves J) (hf : ∀ a, (f a).Preserves J) :
    (c >>= f).Preserves J := by
  intro v own hJ
  refine Program.Safe.bind (hc v own hJ) ?_
  rintro ⟨e | a, w⟩ own hJ
  · exact .done hJ
  · exact hf a w own hJ

/-- Giving a result keeps everything. -/
theorem preserves_pure (a : α) : (pure a : Call α).Preserves J :=
  fun _ _ hJ => .done hJ

/-- Throwing an error keeps everything. -/
theorem preserves_throw (e : Error) : (throw e : Call α).Preserves J :=
  fun _ _ hJ => .done hJ

/-- Looking at the view keeps everything. -/
theorem preserves_view : Call.view.Preserves J :=
  fun _ _ hJ => .done hJ

/-- A notice keeps everything, as reports are not followed. -/
theorem preserves_log (n : Notice) : (Call.log n).Preserves J :=
  fun _ _ hJ => .report (.done hJ)

/-- A metric keeps everything, as reports are not followed. -/
theorem preserves_count (m : Metric) : (Call.count m).Preserves J :=
  fun _ _ hJ => .report (.done hJ)

/-- A span keeps what the call in it keeps. -/
theorem Preserves.within (hc : c.Preserves J) (span : Span) :
    (Call.within span c).Preserves J :=
  fun v own hJ => Program.Safe.within span (hc v own hJ)

/-- An ingestion keeps what its exchange keeps, whatever the writer answers. -/
theorem preserves_ingest {t : Timestamp} {b : Batch}
    (h : ∀ v own x, J v own → J v (⟨.ingest t b, x⟩ :: own)) : (Call.ingest t b).Preserves J := by
  intro v own hJ
  refine .ask rfl ⟨v, hJ⟩ ?_
  rintro x _ rfl
  exact .done (h v own x hJ)

/-- A merge keeps what its exchange keeps, whatever the writer answers. -/
theorem preserves_merge {t : Timestamp} {p : Plan}
    (h : ∀ v own x, J v own → J v (⟨.merge t p, x⟩ :: own)) : (Call.merge t p).Preserves J := by
  intro v own hJ
  refine .ask rfl ⟨v, hJ⟩ ?_
  rintro x _ rfl
  exact .done (h v own x hJ)

/-- A call that writes only what it gives, and leaves the view as it was if it fails. -/
theorem preserves_of_idle {g : Timeline → α → Timeline → List Exchange → Prop}
    (hc : ∀ v, c.Safe Alone Session.Idle (fun _ => Session.Idle) (g v) v [])
    (hr : ∀ v, c.Restores v) (hidle : ∀ {v own l}, Session.Idle l → J v own → J v (l ++ own))
    (hg : ∀ {v own a w l}, J v own → g v a w l → J w (l ++ own)) : c.Preserves J := by
  intro v own hJ
  have hsafe : c.Safe Alone (J v) (fun _ => J v) (fun a w l => ∃ l', l = l' ++ own ∧ g v a w l')
      v own := Session.safe_after_idle (fun l hl => hidle hl hJ) (hc v)
  refine (Program.Safe.and_yields hsafe (hr v)).mono (fun l hl => ⟨v, hl⟩) ?_
  rintro ⟨e | a, w⟩ l ⟨hl, hw⟩
  · obtain rfl : w = v := hw e rfl
    exact hl
  · obtain ⟨l', rfl, hl⟩ := hl
    exact hg hJ hl

end Call

namespace Operation

/-- The time of request of what a call appends, if it can append: the time that it was given,
which only a plain append may lack. -/
def clock? : Operation → Option (Option Moment)
  | append _ _ requestedAt => some requestedAt
  | run _ now | scheduleAt _ _ now | createAt _ _ _ now | start _ _ now => some (some now)
  | refresh | transition .. | retryPending => none

end Operation

namespace Session

/-- What the steps of calls keep in views and exchanges; `clock` is the time of request of what is
appended, if anything is. -/
structure Maintains (table : Table) (clock : Option (Option Moment))
    (J : Timeline → List Exchange → Prop) : Prop where
  idle : ∀ {v own l}, Idle l → J v own → J v (l ++ own)
  loads : ∀ {v own w l}, J v own → Loads table w l → J w (l ++ own)
  creates : ∀ {v own m l}, J v own → clock = some m.requestedAt → Creates table m l →
    J (v.upsert m) (l ++ own)
  moves : ∀ {v own instant target details current m l}, J v own →
    Moves table instant target details current m l → J (v.upsert m) (l ++ own)
  ingest : ∀ {v own t b} x, J v own → J v (⟨.ingest t b, x⟩ :: own)
  merge : ∀ {v own t p} x, J v own → J v (⟨.merge t p, x⟩ :: own)

namespace Maintains

variable {table : Table} {clock : Option (Option Moment)} {requestedAt : Option Moment}
  {config : Config} {timestamp : Timestamp} {now : Moment}
  {J : Timeline → List Exchange → Prop}

/-- A refresh loads a view, or it writes nothing. -/
theorem refresh (h : Maintains table clock J) : (Session.refresh table).Preserves J :=
  Call.preserves_of_idle (g := fun _ _ w l => Loads table w l) (fun _ => safe_refresh)
    (fun _ => restores_refresh) h.idle h.loads

/-- An append puts a marker that it has created, or it writes nothing. -/
theorem append (h : Maintains table (some requestedAt) J) (instant : Instant) (details : Details) :
    (Session.append table instant details requestedAt).Preserves J := by
  refine Call.preserves_of_idle (fun _ => safe_append instant details requestedAt)
    (fun _ => restores_append details requestedAt) h.idle ?_
  rintro v own i _ l hJ ⟨-, -, rfl, hl⟩
  exact h.creates hJ rfl hl

/-- A transition puts a marker that it has moved, or it writes nothing. -/
theorem transition (h : Maintains table clock J) (instant : Instant) (target : State)
    (details : Option Details) : (Session.transition table instant target details).Preserves J := by
  refine Call.preserves_of_idle (fun _ => safe_transition instant target details)
    (fun _ => restores_transition target details) h.idle ?_
  rintro v own i _ l hJ ⟨-, -, current, m, rfl, hl⟩
  exact h.moves hJ hl

/-- An execution is kept by its two steps and by the merge between them. -/
theorem execute (h : Maintains table clock J) (compaction : Instant) (mode : Mode) :
    (Compaction.execute table compaction mode).Preserves J := by
  refine Call.Preserves.within ?_ _
  have hstart : (Compaction.start table compaction).Preserves J := by
    unfold Compaction.start
    split
    · exact h.transition compaction .inflight none
    · exact Call.preserves_pure compaction
  refine hstart.bind fun inflight => Call.preserves_view.bind fun view => ?_
  refine Call.Preserves.bind (Call.preserves_merge fun _ _ x hJ => h.merge x hJ) ?_
  rintro (e | x)
  · exact (Call.preserves_count _).bind fun _ => (Call.preserves_log _).bind fun _ =>
      Call.preserves_throw _
  · refine (h.transition inflight .completed none).bind fun completed => ?_
    exact (Call.preserves_count _).bind fun _ => (Call.preserves_count _).bind fun _ =>
      (Call.preserves_log _).bind fun _ => Call.preserves_pure completed

/-- The adoption of a compaction is kept as its execution is. -/
theorem completePending (h : Maintains table clock J) :
    (Compaction.completePending table).Preserves J := by
  refine Call.preserves_view.bind fun view => ?_
  split
  · exact Call.preserves_pure none
  · exact (Call.preserves_log _).bind fun _ => (Call.preserves_count _).bind fun _ =>
      (h.execute _ .retry).bind fun completed => Call.preserves_pure (some completed)

/-- Scheduling a compaction is kept as the append of it is. -/
theorem schedule (h : Maintains table (some (some now)) J) (timeline : Timeline)
    (timestamp : Timestamp) (reason : Reason) :
    (Compaction.schedule table timeline timestamp reason now).Preserves J :=
  (h.append _ _).bind fun requested => (Call.preserves_log _).bind fun _ =>
    (Call.preserves_count _).bind fun _ => Call.preserves_pure requested

/-- A cycle is kept as its refresh, its retry and its schedule are. -/
theorem run (h : Maintains table (some (some now)) J) :
    (Compaction.run table config now).Preserves J := by
  refine Call.Preserves.within (h.refresh.bind fun _ => h.completePending.bind ?_) _
  rintro (_ | completed)
  · refine Call.preserves_view.bind fun timeline => ?_
    split
    · exact (Call.preserves_log _).bind fun _ => Call.preserves_pure _
    · refine (h.schedule _ _ _).bind fun requested => ?_
      split
      · exact (h.execute requested .new).bind fun completed => Call.preserves_pure _
      · exact Call.preserves_pure _
  · exact Call.preserves_pure _

/-- A retry is kept as its refresh and its execution are. -/
theorem retryPending (h : Maintains table clock J) : (Compaction.retryPending table).Preserves J :=
  h.refresh.bind fun _ => h.completePending

/-- Scheduling at a timestamp is kept as its refresh and its append are. -/
theorem scheduleAt (h : Maintains table (some (some now)) J) :
    (Compaction.scheduleAt table config timestamp now).Preserves J := by
  refine h.refresh.bind fun _ => Call.preserves_view.bind fun timeline => ?_
  split
  · exact Call.preserves_throw _
  split
  · exact Call.preserves_pure none
  · exact (h.schedule _ _ _).bind fun requested => Call.preserves_pure (some requested)

/-- A delta commit is kept as its steps, its ingestion and the cycle after it are. -/
theorem commit {batch : Batch} (h : Maintains table (some (some now)) J) :
    (DeltaCommit.commit table config timestamp batch now).Preserves J := by
  have hwrite : (DeltaCommit.writeDelta table timestamp batch now).Preserves J := by
    refine (h.append _ _).bind fun requested => (h.transition _ _ _).bind fun inflight => ?_
    refine Call.Preserves.bind (Call.preserves_ingest fun _ _ x hJ => h.ingest x hJ) ?_
    rintro (e | metadata)
    · exact (Call.preserves_count _).bind fun _ => (Call.preserves_log _).bind fun _ =>
        Call.preserves_throw _
    · exact (h.transition _ _ _).bind fun completed => (Call.preserves_count _).bind fun _ =>
        (Call.preserves_log _).bind fun _ => Call.preserves_pure _
  refine (hwrite.within _).bind ?_
  rintro ⟨instant, metadata⟩
  dsimp only
  split
  · exact h.run.bind fun outcome => Call.preserves_pure _
  · exact Call.preserves_pure _

/-- **What every step keeps, every call keeps.** -/
theorem call {op : Operation} (h : Maintains table op.clock? J) : (op.call table).Preserves J := by
  cases op with
  | refresh => exact h.refresh.bind fun _ => Call.preserves_pure _
  | append instant details requestedAt =>
    exact (h.append instant details).bind fun _ => Call.preserves_pure _
  | transition instant target details =>
    exact (h.transition instant target details).bind fun _ => Call.preserves_pure _
  | run config now => exact h.run.bind fun _ => Call.preserves_pure _
  | retryPending => exact h.retryPending.bind fun _ => Call.preserves_pure _
  | scheduleAt config timestamp now => exact h.scheduleAt.bind fun _ => Call.preserves_pure _
  | createAt config timestamp batch now =>
    exact (h.refresh.bind fun _ => h.commit).bind fun _ => Call.preserves_pure _
  | start config batch now =>
    exact (h.refresh.bind fun _ => Call.preserves_view.bind fun _ => h.commit).bind fun _ =>
      Call.preserves_pure _

end Maintains
end Session
end CommitTimeline
