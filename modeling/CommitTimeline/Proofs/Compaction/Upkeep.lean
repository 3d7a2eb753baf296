/-
# What coordinators keep

A coordinator refreshes its view, moves the compactions that it finds there, has them
merged, and schedules a new one from a view that it has just loaded. What holds of its
surroundings all along, and of its views, has to be shown for these few steps
(`Compaction.Upholds`, `Compaction.Schedules`); then it holds of a cycle, of a retry and of
a scheduling call, whatever they are answered (`Compaction.Upholds.safe_run` and the
others).
-/

import CommitTimeline.Proofs.Timeline
import CommitTimeline.Proofs.Program.Safety

namespace CommitTimeline
namespace Compaction

variable {σ : Type} {step : σ → Exchange → σ → Prop} {table : Table} {W : σ → Prop}
  {L I : Timeline → σ → Prop}

/-- What coordinators keep in their surroundings: `W` holds all along, `L` of a view that was
just loaded, and `I` of a view that has been kept up since. -/
structure Upholds (step : σ → Exchange → σ → Prop) (table : Table) (W : σ → Prop)
    (L I : Timeline → σ → Prop) : Prop where
  known : ∀ {v s}, L v s → I v s
  kept : ∀ {v s}, I v s → W s
  refresh : ∀ {v s}, W s →
    (Session.refresh table).Safe step W (fun _ => W) (fun _ w s' => L w s') v s
  merge : ∀ {v s s' timestamp plan x}, I v s → step s ⟨.merge timestamp plan, x⟩ s' → I v s'
  compact : ∀ {v s e} target, I v s → e ∈ v.entries → e.instant.action = .compaction →
    (Session.transition table e.instant target none).Safe step W (fun _ => W)
      (fun i w s' => i = e.instant.moved target ∧ I w s' ∧ ∃ e' ∈ w.entries, e'.instant = i) v s

/-- A compaction may be scheduled from a loaded view, under the timestamp that it gives. -/
def Schedules (step : σ → Exchange → σ → Prop) (table : Table) (W : σ → Prop)
    (L I : Timeline → σ → Prop) (timestamp : Timeline → Timestamp) (now : Moment) : Prop :=
  ∀ v s, L v s →
    (Session.append table (.requested (timestamp v) .compaction) (.plan v.nextPlan)
      (some now)).Safe step W (fun _ => W)
      (fun i w s' => i = .requested (timestamp v) .compaction ∧ I w s' ∧
        ∃ e ∈ w.entries, e.instant = i) v s

namespace Upholds

variable {v : Timeline} {s : σ} {e : Entry} {config : Config} {now : Moment}

/-- To start an outstanding compaction puts it in flight, and keeps what is upheld. -/
theorem safe_start (h : Upholds step table W L I) (hi : I v s) (he : e ∈ v.entries)
    (ho : e.IsOutstanding) :
    (start table e.instant).Safe step W (fun _ => W)
      (fun i w s' => i = ⟨e.timestamp, .compaction, .inflight⟩ ∧ I w s' ∧
        ∃ e' ∈ w.entries, e'.instant = i) v s := by
  obtain ⟨⟨t, a, state⟩, d, r⟩ := e
  obtain ⟨ha, hs⟩ := ho
  obtain rfl : a = .compaction := ha
  cases state with
  | requested => exact h.compact .inflight hi he rfl
  | inflight => exact Call.safe_pure ⟨rfl, hi, _, he, rfl⟩
  | completed => exact absurd rfl hs

/-- To execute an outstanding compaction keeps what is upheld, at whatever step it fails. -/
theorem safe_execute (h : Upholds step table W L I) (hi : I v s) (he : e ∈ v.entries)
    (ho : e.IsOutstanding) (mode : Mode) :
    (execute table e.instant mode).Safe step W (fun _ => W) (fun _ w s' => I w s') v s := by
  refine Call.safe_within _ (Call.Safe.bind (h.safe_start hi he ho) ?_)
  rintro i w s ⟨hinflight, hi, e', he', rfl⟩
  refine Call.safe_view (Call.safe_merge (h.kept hi) ?_)
  intro x s' hx
  replace hi := h.merge hi hx
  cases x with
  | error x => exact Call.safe_count (Call.safe_log (Call.safe_throw (h.kept hi)))
  | ok x =>
    refine Call.Safe.bind (h.compact .completed hi he' (by rw [hinflight])) ?_
    rintro i w s ⟨-, hi, -⟩
    exact Call.safe_count (Call.safe_count (Call.safe_log (Call.safe_pure hi)))

/-- To complete the pending compaction keeps what is upheld; without one it does nothing. -/
theorem safe_completePending (h : Upholds step table W L I) (hi : I v s) :
    (completePending table).Safe step W (fun _ => W)
      (fun o w s' => I w s' ∧ (o = none → w = v ∧ s' = s)) v s := by
  unfold completePending
  refine Call.safe_view ?_
  split
  · exact Call.safe_pure ⟨hi, fun _ => ⟨rfl, rfl⟩⟩
  · rename_i pending hp
    obtain ⟨e, he, rfl, ha, hstate⟩ := Timeline.exists_of_pendingCompaction? hp
    have ho : e.IsOutstanding := by
      refine ⟨ha, ?_⟩
      rcases hstate with hstate | hstate <;> rw [hstate] <;> decide
    refine Call.safe_log (Call.safe_count ?_)
    refine Call.Safe.bind (h.safe_execute hi he ho .retry) ?_
    intro i w s hi
    refine Call.safe_pure ⟨hi, ?_⟩
    intro hn
    cases hn

/-- To schedule keeps what is upheld, and leaves the requested compaction in the view. -/
theorem safe_schedule {timestamp : Timeline → Timestamp}
    (hs : Schedules step table W L I timestamp now) (hl : L v s) {reason : Reason} :
    (schedule table v (timestamp v) reason now).Safe step W (fun _ => W)
      (fun i w s' => i = .requested (timestamp v) .compaction ∧ I w s' ∧
        ∃ e ∈ w.entries, e.instant = i) v s := by
  refine Call.Safe.bind (hs v s hl) ?_
  intro i w s hi
  exact Call.safe_log (Call.safe_count (Call.safe_pure hi))

/-- **A cycle keeps what its steps keep.** -/
theorem safe_run (h : Upholds step table W L I)
    (hs : Schedules step table W L I (·.newTimestamp now) now) (hw : W s) :
    (run table config now).Safe step W (fun _ => W) (fun _ w s' => I w s') v s := by
  refine Call.safe_within _ (Call.Safe.bind (h.refresh hw) ?_)
  intro _ w s hl
  refine Call.Safe.bind (h.safe_completePending (h.known hl)) ?_
  rintro (_ | completed) w' s' ⟨hi, hnone⟩
  · obtain ⟨rfl, rfl⟩ := hnone rfl
    refine Call.safe_view ?_
    split
    · exact Call.safe_log (Call.safe_pure hi)
    · refine Call.Safe.bind (safe_schedule hs hl) ?_
      rintro i w s ⟨hrequested, hi, e, he, rfl⟩
      split
      · have ho : e.IsOutstanding := by
          rw [Marker.IsOutstanding, hrequested]
          exact ⟨rfl, State.noConfusion⟩
        refine Call.Safe.bind (h.safe_execute hi he ho .new) ?_
        intro i w s hi
        exact Call.safe_pure hi
      · exact Call.safe_pure hi
  · exact Call.safe_pure hi

/-- To retry keeps what is upheld. -/
theorem safe_retryPending (h : Upholds step table W L I) (hw : W s) :
    (retryPending table).Safe step W (fun _ => W) (fun _ w s' => I w s') v s := by
  refine Call.Safe.bind (h.refresh hw) ?_
  intro _ w s hl
  exact (h.safe_completePending (h.known hl)).imp fun _ _ _ hi => hi.1

/-- To schedule at a given timestamp keeps what is upheld. -/
theorem safe_scheduleAt (h : Upholds step table W L I) {timestamp : Timestamp}
    (hs : Schedules step table W L I (fun _ => timestamp) now) (hw : W s) :
    (scheduleAt table config timestamp now).Safe step W (fun _ => W) (fun _ w s' => I w s')
      v s := by
  refine Call.Safe.bind (h.refresh hw) ?_
  intro _ w s hl
  refine Call.safe_view ?_
  split
  · exact Call.safe_throw (h.kept (h.known hl))
  split
  · exact Call.safe_pure (h.known hl)
  · refine Call.Safe.bind (safe_schedule hs hl) ?_
    rintro i w s ⟨-, hi, -⟩
    exact Call.safe_pure hi

end Upholds
end Compaction
end CommitTimeline
