/-
# Compactions left to others

A coordinator may execute a compaction in the cycle that schedules it, or leave it to
whoever retries next. In calm, where no compaction is outstanding, it makes no difference
(`Compaction.deferred`): after a cycle that only schedules, a retry by any session asks the
writer for the same merge and stores the same objects, with the same versions, as a cycle
that executes at once, and it comes to the same instant or to the same error. Nor does it
make a difference whether a cycle schedules or a session that names the timestamp itself.

These ways share their steps, so what is shown is that their runs are equal. A run goes on
from what is stored wherever it refreshes (`Calm.outcome_refresh_bind`), and the mode of an
execution is for reports only (`Compaction.outcome_execute`).
-/

import CommitTimeline.Proofs.Compaction.Cycle

namespace CommitTimeline

/-- Of the markers that a refresh finds, none is of an outstanding compaction. -/
def Storage.Objects.IsAtRest (s : Objects) (table : Table) : Prop :=
  ∀ path o m, table.IsSearched path → s.find? (table.place path) = some o →
    Marker.decode? o.data = some m → ¬m.IsOutstanding

/-- Storage is at rest just if the timeline that is stored has no outstanding compaction. -/
theorem Timeline.IsStoredIn.isAtRest_iff {t : Timeline} {table : Table} {s : Storage.Objects}
    (ht : t.IsStoredIn table s) : s.IsAtRest table ↔ ∀ e ∈ t.entries, ¬e.IsOutstanding := by
  constructor
  · intro hs e he
    obtain ⟨o, ho, hd⟩ := ht.stored e he
    exact hs _ o e (table.isSearched_markerPath e.timestamp) ho hd
  · intro h path o m hp ho hd
    obtain ⟨e, he, rfl⟩ := ht.only path o hp ho
    exact h m (ht.mem_of_decode? ho hd).1

/-- What is put into a timeline where none is outstanding is the only one that may be. -/
theorem Timeline.pendingCompaction?_upsert {t : Timeline} {m : Marker} (ht : t.IsStrict)
    (hnone : ∀ e ∈ t.entries, ¬e.IsOutstanding) (hm : m.IsOutstanding) :
    (t.upsert m).pendingCompaction? = some m.instant := by
  have hmem : m ∈ (t.upsert m).outstanding := mem_outstanding.2 ⟨mem_upsert_self t m, hm⟩
  rw [pendingCompaction?_eq]
  cases hout : (t.upsert m).outstanding with
  | nil =>
    rw [hout] at hmem
    cases hmem
  | cons e rest =>
    obtain ⟨he, ho⟩ := mem_outstanding.1 (hout ▸ List.mem_cons_self)
    rcases (mem_upsert_iff ht).1 he with rfl | ⟨he, -⟩
    · rfl
    · exact absurd ho (hnone e he)

namespace Calm

variable {α β : Type} {o : Calm} {c : Call α} {f g : α → Call β} {v w t : Timeline} {s s' : Scene}
  {table : Table}

/-- What a call gives from a view, and the scene that it leaves. -/
def outcome (o : Calm) (c : Call α) (view : Timeline) (s : Scene) : Except Error α × Scene :=
  Prod.map Prod.fst id ((c.program view).run o.answer s)

/-- One call after the other: the second goes on from what the first one gives. -/
theorem outcome_bind : o.outcome (c >>= f) v s =
    match (c.program v).run o.answer s with
    | ((.ok a, w), s') => o.outcome (f a) w s'
    | ((.error x, _), s') => (.error x, s') := by
  refine congrArg (Prod.map Prod.fst id) (Program.run_bind o.answer (c.program v) _ s) |>.trans ?_
  obtain ⟨⟨x | a, w⟩, s'⟩ := (c.program v).run o.answer s
  · rfl
  · rfl

/-- Calls that agree after every result of the first one agree. -/
theorem outcome_bind_congr (h : ∀ a w s', o.outcome (f a) w s' = o.outcome (g a) w s') :
    o.outcome (c >>= f) v s = o.outcome (c >>= g) v s := by
  rw [outcome_bind, outcome_bind]
  obtain ⟨⟨x | a, w⟩, s'⟩ := (c.program v).run o.answer s
  · rfl
  · exact h a w s'

/-- A function of the answer is applied to the outcome, and changes no more. -/
theorem outcome_map (f : α → β) : o.outcome (do return f (← c)) v s =
    ((o.outcome c v s).1.map f, (o.outcome c v s).2) := by
  rw [outcome_bind, outcome]
  obtain ⟨⟨x | a, w⟩, s'⟩ := (c.program v).run o.answer s
  · rfl
  · rfl

/-- To look at the view leaves the scene as it is. -/
theorem outcome_view (f : Timeline → Call α) :
    o.outcome (Call.view >>= f) v s = o.outcome (f v) v s := rfl

/-- A notice leaves the scene as it is. -/
theorem outcome_log (n : Notice) (f : Unit → Call α) :
    o.outcome (Call.log n >>= f) v s = o.outcome (f ()) v s := rfl

/-- A count leaves the scene as it is. -/
theorem outcome_count (m : Metric) (f : Unit → Call α) :
    o.outcome (Call.count m >>= f) v s = o.outcome (f ()) v s := rfl

/-- A span changes nothing of the outcome. -/
theorem outcome_within (span : Span) :
    o.outcome (Call.within span c) v s = o.outcome c v s :=
  congrArg (Prod.map Prod.fst id) (run_within span (c.program v) s)

/-- What comes after a refresh begins with the stored timeline as its view. -/
theorem outcome_refresh_bind (ht : t.IsStoredIn table s.objects) (f : Unit → Call α) :
    o.outcome (Session.refresh table >>= f) v s = o.outcome (f ()) t s :=
  congrArg (Prod.map Prod.fst id) (run_refresh_bind ht f)

end Calm

namespace Compaction

variable {o : Calm} {table : Table} {config : Config} {now : Moment} {t v : Timeline} {s : Scene}

/-- **The mode of an execution is for reports only.** -/
theorem outcome_execute (compaction : Instant) (mode mode' : Mode) :
    o.outcome (execute table compaction mode) v s =
      o.outcome (execute table compaction mode') v s := by
  unfold execute
  rw [Calm.outcome_within, Calm.outcome_within]
  refine Calm.outcome_bind_congr fun inflight w s' => ?_
  rw [Calm.outcome_view, Calm.outcome_view]
  refine Calm.outcome_bind_congr fun merged w s' => ?_
  cases merged with
  | error x => rfl
  | ok x =>
    refine Calm.outcome_bind_congr fun completed w s' => ?_
    simp only [Calm.outcome_count, Calm.outcome_log]

/-- In calm an execution merges, or it leaves the compaction in flight. -/
theorem executes_outcome {e : Entry} (ht : t.IsStoredIn table s.objects) (he : e ∈ t.entries)
    (ho : e.IsOutstanding) (mode : Mode) :
    Executes table t (fun timestamp plan x => o.merge timestamp plan = x) e s.objects
      (o.outcome (execute table e.instant mode) t s).1
      (o.outcome (execute table e.instant mode) t s).2.objects := by
  have hends := Calm.run_of_safe ((Session.solitary_calm o table).safe_execute ht he ho mode)
  unfold Calm.outcome
  generalize ((execute table e.instant mode).program t).run o.answer s = r at hends
  obtain ⟨⟨x | i, w⟩, s'⟩ := r
  · exact hends.resolve_left id
  · exact hends

/-- Where none is outstanding, nothing is retried. -/
theorem outcome_completePending_bind {α : Type} (hnone : t.pendingCompaction? = none)
    (f : Option Instant → Call α) :
    o.outcome (completePending table >>= f) t s = o.outcome (f none) t s := by
  unfold completePending
  rw [bind_assoc, Calm.outcome_view, hnone, pure_bind]

/-- Where one is outstanding, it is executed. -/
theorem outcome_completePending {pending : Instant} (h : t.pendingCompaction? = some pending) :
    o.outcome (completePending table) t s =
      o.outcome (do return some (← execute table pending .retry)) t s := by
  unfold completePending
  rw [Calm.outcome_view, h, Calm.outcome_log, Calm.outcome_count]

/-- What a cycle does about a compaction that is due. -/
def proceed (table : Table) (isInline : Bool) (t : Timeline) (reason : Reason) (now : Moment) :
    Call Outcome := do
  let requested ← schedule table t (t.newTimestamp now) reason now
  if isInline then return .executed (← execute table requested .new)
  else return .scheduled requested

/-- Where none is outstanding, a cycle does what is due on the stored timeline. -/
theorem outcome_run (ht : t.IsStoredIn table s.objects) (hnone : t.pendingCompaction? = none)
    (isInline : Bool) :
    o.outcome (run table { config with isInline } now) v s =
      match t.decide config now with
      | none => (.ok .noAction, s)
      | some reason => o.outcome (proceed table isInline t reason now) t s := by
  have hdecide : t.decide { config with isInline } now = t.decide config now := rfl
  unfold run cycle
  rw [Calm.outcome_within, Calm.outcome_refresh_bind ht, outcome_completePending_bind hnone,
    Calm.outcome_view, hdecide]
  cases t.decide config now with
  | none => rfl
  | some reason => rfl

/-- A session refreshes, takes a new timestamp and schedules a compaction there. -/
def scheduleNew (table : Table) (config : Config) (now : Moment) : Call (Option Instant) := do
  Session.refresh table
  let timestamp := (← Call.view).newTimestamp now
  scheduleAt table config timestamp now

/-- On a fresh view a compaction is scheduled just if one is due, at the new timestamp. -/
theorem outcome_scheduleNew (ht : t.IsStoredIn table s.objects)
    (hnone : t.pendingCompaction? = none) (isInline : Bool) :
    o.outcome (scheduleNew table { config with isInline } now) v s =
      match t.decide config now with
      | none => (.ok none, s)
      | some reason =>
        o.outcome (do return some (← schedule table t (t.newTimestamp now) reason now)) t s := by
  have hdecide : t.decide { config with isInline } now = t.decide config now := rfl
  unfold scheduleNew scheduleAt
  rw [Calm.outcome_refresh_bind ht, Calm.outcome_view, Calm.outcome_refresh_bind ht,
    Calm.outcome_view, hnone, hdecide]
  cases t.decide config now with
  | none => rfl
  | some reason => rfl

/-- What comes of a cycle that executes at once, where the other one is what comes of a cycle
that only schedules. -/
inductive Deferred (o : Calm) (table : Table) (t : Timeline) (now : Moment) (s : Scene) :
    Except Error Outcome × Scene → Except Error Outcome × Scene → Prop where
  /-- None is due. -/
  | idle : Deferred o table t now s (.ok .noAction, s) (.ok .noAction, s)
  /-- The one that is due is refused. -/
  | refused (x : Error) : Deferred o table t now s (.error x, s) (.error x, s)
  /-- It has been scheduled, and whoever retries executes it. -/
  | scheduled {i : Instant} {s' s'' : Scene} {r : Except Error Instant}
      (hretry : ∀ w, o.outcome (retryPending table) w s' = (r.map some, s''))
      (h : Executes table t (fun timestamp plan x => o.merge timestamp plan = x) (t.due now)
        s.objects r s''.objects) :
      Deferred o table t now s (r.map .executed, s'') (.ok (.scheduled i), s')

/-- What is due is refused, or it is put, and the session goes on from there. -/
theorem outcome_schedule_bind (ht : t.IsStoredIn table s.objects) (hc : config.maxDeltaCommits ≠ 0)
    {reason : Reason} (hd : t.decide config now = some reason) :
    (∃ x, ∀ {α : Type} (f : Instant → Call α),
      o.outcome (schedule table t (t.newTimestamp now) reason now >>= f) t s = (.error x, s)) ∨
    ∃ s', t.IsPut table (t.due now) s.objects s'.objects ∧ ∀ {α : Type} (f : Instant → Call α),
      o.outcome (schedule table t (t.newTimestamp now) reason now >>= f) t s =
        o.outcome (f (t.due now).instant) (t.upsert (t.due now)) s' := by
  cases hr : Session.refusal? t (t.due now).instant with
  | some x =>
    refine .inl ⟨x, fun f => ?_⟩
    unfold schedule Session.append
    rw [bind_assoc, bind_assoc, Calm.outcome_view]
    change Session.refusal? t (.requested (t.newTimestamp now) .compaction) = some x at hr
    rw [hr]
    rfl
  | none =>
    have hdue : (t.due now).IsReadable := by
      constructor
      · exact Session.isValid_of_refusal? ht.isNamed (.inl (Timeline.ne_nil_of_decide hc hd)) rfl hr
      · exact ht.isNamed.isReadable_nextPlan
    have hrefused : ∀ x, Session.refusal? t (t.due now).instant = some x → False := by
      intro x hx
      rw [hr] at hx
      cases hx
    obtain ⟨i, w, s', hrun, -, rfl, rfl, hp⟩ := Calm.Gives.run
      (c := schedule table t (t.newTimestamp now) reason now)
      ((Session.solitary_calm o table).safe_schedule ht (fun _ => hdue) hrefused)
    refine .inr ⟨s', hp, fun f => ?_⟩
    rw [Calm.outcome_bind, hrun]

/-- **Executing at once or later is the same,** whoever executes. In calm, where all that is
stored are readable markers at their places and no compaction is outstanding: a cycle that
executes at once and one that leaves it to a retry come to the same, and so do a cycle that
only schedules and a session that schedules at a new timestamp. -/
theorem deferred (hs : s.objects.IsOrderly table) (hrest : s.objects.IsAtRest table)
    (hc : config.IsValid) (now : Moment) (o : Calm) :
    ∃ t : Timeline, t.IsStoredIn table s.objects ∧ ∀ v w : Timeline,
      Deferred o table t now s
        (o.outcome (run table { config with isInline := true } now) v s)
        (o.outcome (run table { config with isInline := false } now) w s) ∧
      ∃ r s', o.outcome (scheduleNew table { config with isInline := false } now) v s = (r, s') ∧
        o.outcome (run table { config with isInline := false } now) w s =
          (r.map fun i => i.elim .noAction .scheduled, s') := by
  obtain ⟨t, ht⟩ := Timeline.IsStoredIn.exists_of_places hs
  have hnone := ht.isAtRest_iff.1 hrest
  have hpending := Timeline.pendingCompaction?_eq_none hnone
  refine ⟨t, ht, fun v w => ?_⟩
  rw [outcome_run ht hpending, outcome_run ht hpending, outcome_scheduleNew ht hpending]
  cases hd : t.decide config now with
  | none => exact ⟨.idle, .ok none, s, rfl, rfl⟩
  | some reason =>
    unfold proceed
    obtain ⟨x, hrefused⟩ | ⟨s', hp, hput⟩ := outcome_schedule_bind (o := o) ht hc.1 hd
    · simp only [hrefused]
      exact ⟨.refused x, .error x, s, rfl, rfl⟩
    simp only [hput, if_pos, if_neg Bool.false_ne_true, Calm.outcome_map]
    refine ⟨?_, .ok (some _), s', rfl, rfl⟩
    show Deferred o table t now s _ (.ok (.scheduled (t.due now).instant), s')
    refine .scheduled ?_ ?_
    · intro w
      unfold retryPending
      have hdue : (t.upsert (t.due now)).pendingCompaction? = some (t.due now).instant :=
        Timeline.pendingCompaction?_upsert ht.strict hnone ⟨rfl, State.noConfusion⟩
      rw [Calm.outcome_refresh_bind hp.stored, outcome_completePending hdue, Calm.outcome_map,
        outcome_execute _ .retry .new]
    · refine Executes.after ?_ ht.strict hp
      exact executes_outcome hp.stored (Timeline.mem_upsert_self t (t.due now))
        ⟨rfl, State.noConfusion⟩ .new

/-- Of two delta commits the first one has been compacted, and the other one is due. -/
theorem deferred_of_due :
    ∃ (s : Scene) (t : Timeline), s.objects.IsOrderly .sample ∧ s.objects.IsAtRest .sample ∧
      Config.IsValid ⟨true, 1, .ofSeconds 1⟩ ∧
      (Calm.plain.outcome (run .sample ⟨false, 1, .ofSeconds 1⟩ ⟨0, 0, by decide⟩) t s).1 =
        .ok (.scheduled ⟨⟨"19700101000000000"⟩, .compaction, .requested⟩) ∧
      Deferred .plain .sample t ⟨0, 0, by decide⟩ s
        (Calm.plain.outcome (run .sample ⟨true, 1, .ofSeconds 1⟩ ⟨0, 0, by decide⟩) t s)
        (Calm.plain.outcome (run .sample ⟨false, 1, .ofSeconds 1⟩ ⟨0, 0, by decide⟩) t s) ∧
      ∃ r s',
        Calm.plain.outcome (scheduleNew .sample ⟨false, 1, .ofSeconds 1⟩ ⟨0, 0, by decide⟩) t s =
          (r, s') ∧
        Calm.plain.outcome (run .sample ⟨false, 1, .ofSeconds 1⟩ ⟨0, 0, by decide⟩) t s =
          (r.map fun i => i.elim .noAction .scheduled, s') := by
  let first : Marker := ⟨⟨⟨"001"⟩, .deltaCommit, .completed⟩, .metadata ⟨["f"], 1⟩, none⟩
  let merged : Marker := ⟨⟨⟨"002"⟩, .commit, .completed⟩, .plan ⟨[⟨"001"⟩], ["f"]⟩, none⟩
  let second : Marker := ⟨⟨⟨"003"⟩, .deltaCommit, .completed⟩, .metadata ⟨["g"], 2⟩, none⟩
  let s : Scene := ⟨((Storage.Objects.empty.insert (Table.sample.markerAt ⟨"001"⟩)
    ⟨first.encode, 1⟩).insert (Table.sample.markerAt ⟨"002"⟩) ⟨merged.encode, 1⟩).insert
    (Table.sample.markerAt ⟨"003"⟩) ⟨second.encode, 1⟩, []⟩
  have hempty : Timeline.empty.IsStoredIn .sample .empty := .nothing _
  have hfirst := hempty.write (m := first) (by decide) 1
  have hmerged := hfirst.write (m := merged) (by decide) 1
  have hsecond := hmerged.write (m := second) (by decide) 1
  have hrest : s.objects.IsAtRest .sample := hsecond.isAtRest_iff.2 (by decide)
  have hvalid : Config.IsValid ⟨true, 1, .ofSeconds 1⟩ := by decide
  obtain ⟨t, ht, hdeferred⟩ := deferred (s := s) hsecond.isOrderly hrest hvalid
    ⟨0, 0, by decide⟩ .plain
  obtain rfl := hsecond.eq ht
  refine ⟨s, _, hsecond.isOrderly, hrest, hvalid, ?_, hdeferred _ _⟩
  decide +kernel

end Compaction
end CommitTimeline
