/-
# One cycle of a coordinator

What a cycle comes to depends on the timeline that is stored, and not on the view that it
begins with (`Compaction.Cycled`). If a compaction is outstanding, the earliest one is
executed and no other instant is touched. Otherwise, if one is due, it is requested with a
plan that covers the delta commits since the last compaction (`Timeline.CallsFor`), and it is
executed at once where compactions run inline. An execution completes the compaction as a
commit, or leaves it in flight with an execution error if the merge fails
(`Compaction.Executes`).

The steps are followed in any surroundings in which nobody else writes
(`Session.Solitary.safe_run`). In calm, storage does not fail, so one of these cases comes
about (`Compaction.cycles`).
-/

import CommitTimeline.Proofs.Compaction.Exchanges
import CommitTimeline.Proofs.Compaction.Partition
import CommitTimeline.Proofs.Compaction.Retry
import CommitTimeline.Proofs.Session.Solitary

namespace CommitTimeline

/-- The number of delta commits that made a compaction due. -/
def Reason.count? : Reason → Option Nat
  | .deltaCommits n | .both n _ => some n
  | .elapsedTime _ => none

namespace Timeline

variable {t : Timeline} {config : Config} {now : Moment} {reason : Reason}

/-- The compaction that is requested at a moment. -/
def due (t : Timeline) (now : Moment) : Marker :=
  ⟨.requested (t.newTimestamp now) .compaction, .plan t.nextPlan, some now⟩

/-- A plan lists the completed delta commits since the last compaction, as many as were counted,
and the file groups that they have touched. -/
structure CallsFor (t : Timeline) (plan : Plan) (reason : Reason) : Prop where
  deltaCommits : plan.deltaCommits = t.unmerged.map (·.timestamp)
  count : ∀ n ∈ reason.count?, plan.deltaCommits.length = n
  fileGroups : t.Gathers plan

/-- What is counted are the open delta commits. -/
theorem count_of_decide (hd : t.decide config now = some reason) :
    ∀ n ∈ reason.count?, t.openDeltaCommits.length = n := by
  intro n hn
  unfold decide at hd
  split at hd
  · cases hd
  · dsimp only at hd
    split at hd
    · obtain rfl := Option.some.inj hd
      exact Option.some.inj hn
    · obtain rfl := Option.some.inj hd
      exact Option.some.inj hn
    · obtain rfl := Option.some.inj hd
      cases hn
    · cases hd

/-- Where no compaction is outstanding and one is due, its plan is the next one of the view. -/
theorem callsFor_nextPlan (ht : t.IsStrict) (hnone : ∀ e ∈ t.entries, ¬e.IsOutstanding)
    (hd : t.decide config now = some reason) : t.CallsFor t.nextPlan reason where
  deltaCommits := deltaCommits_nextPlan hnone
  count := by
    intro n hn
    rw [deltaCommits_nextPlan hnone, ← count_of_decide hd n hn, openDeltaCommits_eq hnone,
      List.length_map, List.length_map]
  fileGroups := gathers_nextPlan ht hnone

/-- Nothing is due on an empty timeline, if one delta commit at least has to be there. -/
theorem ne_nil_of_decide (hc : config.maxDeltaCommits ≠ 0)
    (hd : t.decide config now = some reason) : t.entries ≠ [] := by
  intro hnil
  have hopen : t.openDeltaCommits.length = 0 := by
    rw [openDeltaCommits, deltaCommitsAfter, instants, hnil]
    rfl
  have hcount : config.maxDeltaCommits.toNat.ble 0 = false := by
    rw [← Bool.not_eq_true, Nat.ble_eq, Nat.le_zero]
    exact fun h => hc (UInt32.toNat_inj.1 h)
  have helapsed : t.elapsed? now = none := by
    rw [elapsed?, reference?, lastCompaction?, last?, first?, instants, hnil]
    rfl
  unfold decide at hd
  rw [hopen, helapsed] at hd
  dsimp only [Option.filter_none] at hd
  rw [hcount] at hd
  split at hd
  · cases hd
  · cases hd

end Timeline

namespace Compaction

/-- What comes of the execution of an outstanding compaction: the writer is asked to merge what
its plan says, and it completes as a commit, or is left in flight. -/
inductive Executes (table : Table) (t : Timeline)
    (merges : Timestamp → Plan → Except Error Unit → Prop) (e : Entry) (s : Storage.Objects) :
    Except Error Instant → Storage.Objects → Prop where
  | merged {s' : Storage.Objects}
      (hm : merges e.timestamp (e.details.plan?.getD .empty) (.ok ()))
      (hp : t.IsPut table e.merged s s') : Executes table t merges e s (.ok e.merged.instant) s'
  | failed {s' : Storage.Objects} {x : Error} {reason : String} {sources : List String}
      (hm : merges e.timestamp (e.details.plan?.getD .empty) (.error x))
      (hx : x.toExecution s!"merge failed for compaction {e.timestamp.text}" =
        .execution reason sources)
      (hp : t.IsPut table e.inflight s s') :
      Executes table t merges e s (.error (.execution reason sources)) s'

/-- What a cycle comes to where the markers of a timeline are stored: its outcome, or its error,
and what is stored then. -/
inductive Cycled (table : Table) (t : Timeline) (config : Config) (now : Moment)
    (merges : Timestamp → Plan → Except Error Unit → Prop) (s : Storage.Objects) :
    Except Error Outcome → Storage.Objects → Prop where
  /-- The earliest outstanding compaction is executed. -/
  | retried {e : Entry} {r : Except Error Instant} {s' : Storage.Objects} (he : e ∈ t.entries)
      (ho : e.IsOutstanding)
      (hleast : ∀ x ∈ t.entries, x.IsOutstanding → e.timestamp ≤ x.timestamp)
      (h : Executes table t merges e s r s') :
      Cycled table t config now merges s (r.map .retried) s'
  /-- None is outstanding, and none is due. -/
  | idle (hnone : ∀ e ∈ t.entries, ¬e.IsOutstanding) (hd : t.decide config now = none) :
      Cycled table t config now merges s (.ok .noAction) s
  /-- None is outstanding, and one is requested. -/
  | scheduled {reason : Reason} {s' : Storage.Objects}
      (hnone : ∀ e ∈ t.entries, ¬e.IsOutstanding) (hd : t.decide config now = some reason)
      (hi : config.isInline = false) (hplan : t.CallsFor t.nextPlan reason)
      (hnew : ∀ e ∈ t.entries, e.timestamp < t.newTimestamp now)
      (hp : t.IsPut table (t.due now) s s') :
      Cycled table t config now merges s (.ok (.scheduled (t.due now).instant)) s'
  /-- None is outstanding, and one is requested and executed. -/
  | executed {reason : Reason} {r : Except Error Instant} {s' : Storage.Objects}
      (hnone : ∀ e ∈ t.entries, ¬e.IsOutstanding) (hd : t.decide config now = some reason)
      (hi : config.isInline = true) (hplan : t.CallsFor t.nextPlan reason)
      (hnew : ∀ e ∈ t.entries, e.timestamp < t.newTimestamp now)
      (h : Executes table t merges (t.due now) s r s') :
      Cycled table t config now merges s (r.map .executed) s'

variable {table : Table} {t : Timeline} {merges : Timestamp → Plan → Except Error Unit → Prop}
  {e : Entry} {s s' s'' : Storage.Objects} {r : Except Error Instant} {config : Config}
  {now : Moment} {o : Outcome}

/-- What was executed after it had been put has come from what was there before. -/
theorem Executes.after (h : Executes table (t.upsert e) merges e s' r s'') (ht : t.IsStrict)
    (hp : t.IsPut table e s s') : Executes table t merges e s r s'' := by
  cases h with
  | merged hm hp' => exact .merged hm (hp.trans ht hp' rfl)
  | failed hm hx hp' => exact .failed hm hx (hp.trans ht hp' rfl)

/-- If none is outstanding and compactions run inline, a cycle with a result has done nothing, or
it has put a compaction behind everything else and completed it. -/
theorem Cycled.inline (h : Cycled table t config now merges s (.ok o) s')
    (hnone : ∀ e ∈ t.entries, ¬e.IsOutstanding) (hi : config.isInline = true) :
    (t.decide config now = none ∧ o = .noAction ∧ s' = s) ∨
      (t.decide config now ≠ none ∧ o = .executed (t.due now).merged.instant ∧
        (∀ e ∈ t.entries, e.timestamp < t.newTimestamp now) ∧
        (t.upsert (t.due now).merged).IsStoredIn table s') := by
  generalize hx : Except.ok o = x at h
  cases h with
  | retried he ho _ _ => exact absurd ho (hnone _ he)
  | idle _ hd => exact .inl ⟨hd, Except.ok.inj hx, rfl⟩
  | scheduled _ _ hscheduled _ _ _ => cases hi.symm.trans hscheduled
  | executed _ hd _ _ hnew h =>
    cases h with
    | failed => cases hx
    | merged _ hp =>
      refine .inr ⟨?_, Except.ok.inj hx, hnew, hp.stored⟩
      rw [hd]
      exact Option.some_ne_none _

end Compaction

namespace Session.Solitary

open Compaction

variable {σ : Type} {step : σ → Exchange → σ → Prop} {objects : σ → Storage.Objects}
  {table : Table} {merges : Timestamp → Plan → Except Error Unit → Prop}
  {fails : Error → σ → Prop} {t v : Timeline} {s : σ} {e : Entry} {config : Config} {now : Moment}

/-- A compaction that is outstanding is in flight when its execution has started. -/
theorem safe_start (h : Solitary step objects table merges fails)
    (ht : t.IsStoredIn table (objects s)) (he : e ∈ t.entries) (ho : e.IsOutstanding) :
    (start table e.instant).Safe step (fun _ => True) fails
      (fun i w s' => i = e.inflight.instant ∧ w = t.upsert e.inflight ∧
        t.IsPut table e.inflight (objects s) (objects s')) t s := by
  obtain ⟨⟨timestamp, a, state⟩, d, r⟩ := e
  obtain ⟨ha, hs⟩ := ho
  obtain rfl : a = .compaction := ha
  cases state with
  | requested => exact h.transition .inflight ht he rfl
  | inflight =>
    have hsame : t.upsert (Marker.inflight ⟨⟨timestamp, .compaction, .inflight⟩, d, r⟩) = t :=
      Timeline.upsert_eq_self ht.strict he
    refine Call.safe_pure ⟨rfl, hsame.symm, ?_, fun _ _ => rfl⟩
    rw [hsame]
    exact ht
  | completed => exact absurd rfl hs

/-- **An execution merges by the plan that the marker holds.** -/
theorem safe_execute (h : Solitary step objects table merges fails)
    (ht : t.IsStoredIn table (objects s)) (he : e ∈ t.entries) (ho : e.IsOutstanding)
    (mode : Mode) :
    (execute table e.instant mode).Safe step (fun _ => True)
      (fun x s' => fails x s' ∨ Executes table t merges e (objects s) (.error x) (objects s'))
      (fun i _ s' => Executes table t merges e (objects s) (.ok i) (objects s')) t s := by
  refine Call.safe_within _ ((h.safe_start ht he ho).bind_imp (fun _ _ => .inl) ?_)
  rintro i w s₁ ⟨rfl, rfl, hp₁⟩
  have he₁ : e.inflight ∈ (t.upsert e.inflight).entries := Timeline.mem_upsert_self t _
  have hplan : (t.upsert e.inflight).planAt e.timestamp = e.details.plan?.getD .empty := by
    have hfind := Timeline.find?_of_mem hp₁.stored.strict he₁
    change (t.upsert e.inflight).find? e.timestamp = _ at hfind
    rw [Timeline.planAt, Timeline.details?, hfind]
    rfl
  refine Call.safe_view (Call.safe_merge trivial ?_)
  intro x s₂ hx
  obtain ⟨hobjects, hm⟩ := h.merge hx
  rw [show e.inflight.instant.timestamp = e.timestamp from rfl, hplan] at hm
  rw [← hobjects] at hp₁
  cases x with
  | error x =>
    obtain ⟨reason, sources, hexecution⟩ :=
      x.exists_toExecution s!"merge failed for compaction {e.timestamp.text}"
    refine Call.safe_count (Call.safe_log (Call.safe_throw (.inr ?_)))
    change Executes table t merges e (objects s)
      (.error (x.toExecution s!"merge failed for compaction {e.timestamp.text}")) (objects s₂)
    rw [hexecution]
    exact .failed hm hexecution hp₁
  | ok x =>
    refine (h.transition .completed hp₁.stored he₁ rfl).bind_imp (fun _ _ => .inl) ?_
    rintro i w s₃ ⟨rfl, -, hp₃⟩
    exact Call.safe_count (Call.safe_count (Call.safe_log (Call.safe_pure
      (.merged hm (hp₁.trans ht.strict hp₃ rfl)))))

/-- The earliest outstanding compaction is executed, if there is one. -/
theorem safe_completePending (h : Solitary step objects table merges fails)
    (ht : t.IsStoredIn table (objects s)) :
    (completePending table).Safe step (fun _ => True)
      (fun x s' =>
        fails x s' ∨ Cycled table t config now merges (objects s) (.error x) (objects s'))
      (fun i w s' => match i with
        | none => w = t ∧ s' = s ∧ ∀ e ∈ t.entries, ¬e.IsOutstanding
        | some i => Cycled table t config now merges (objects s) (.ok (.retried i)) (objects s'))
      t s := by
  unfold completePending
  refine Call.safe_view ?_
  rw [Timeline.pendingCompaction?_eq]
  cases hout : t.outstanding with
  | nil =>
    refine Call.safe_pure ⟨rfl, rfl, ?_⟩
    intro e he ho
    have hmem := Timeline.mem_outstanding.2 ⟨he, ho⟩
    rw [hout] at hmem
    cases hmem
  | cons e rest =>
    obtain ⟨he, ho⟩ := Timeline.mem_outstanding.1 (hout ▸ List.mem_cons_self)
    have hleast : ∀ x ∈ t.entries, x.IsOutstanding → e.timestamp ≤ x.timestamp := by
      intro x hx hxo
      have hsorted : t.outstanding.Pairwise fun a b => a.timestamp ≤ b.timestamp :=
        t.sorted.filter _
      have hmem := Timeline.mem_outstanding.2 ⟨hx, hxo⟩
      rw [hout] at hsorted hmem
      rcases List.mem_cons.1 hmem with rfl | hmem
      · exact Timestamp.le_refl _
      · exact (List.pairwise_cons.1 hsorted).1 x hmem
    refine Call.safe_log (Call.safe_count ?_)
    refine (h.safe_execute ht he ho .retry).bind_imp ?_ ?_
    · rintro x s' (hf | hx)
      · exact .inl hf
      · exact .inr (.retried he ho hleast hx)
    · intro i w s' hi
      exact Call.safe_pure (.retried he ho hleast hi)

/-- What is due is appended, unless it is refused. -/
theorem safe_schedule (h : Solitary step objects table merges fails)
    (ht : t.IsStoredIn table (objects s))
    (hdue : refusal? t (t.due now).instant = none → (t.due now).IsReadable)
    (hrefused : ∀ x, refusal? t (t.due now).instant = some x → fails x s) {reason : Reason} :
    (schedule table t (t.newTimestamp now) reason now).Safe step (fun _ => True) fails
      (fun i w s' => refusal? t (t.due now).instant = none ∧ i = (t.due now).instant ∧
        w = t.upsert (t.due now) ∧ t.IsPut table (t.due now) (objects s) (objects s')) t s := by
  cases hr : refusal? t (t.due now).instant with
  | some x =>
    exact Call.Safe.bind (g := fun _ _ _ => False) (safe_append_of_refusal? hr (hrefused x hr))
      fun _ _ _ hg => hg.elim
  | none =>
    refine Call.Safe.bind (h.append (m := t.due now) ht (hdue hr) hr) ?_
    rintro i w s' ⟨rfl, rfl, hp⟩
    exact Call.safe_log (Call.safe_count (Call.safe_pure ⟨rfl, rfl, rfl, hp⟩))

/-- **A cycle does what the stored timeline calls for,** whatever view it begins with. -/
theorem safe_run (h : Solitary step objects table merges fails)
    (ht : t.IsStoredIn table (objects s)) (hc : config.maxDeltaCommits ≠ 0)
    (hrefused : (∀ e ∈ t.entries, ¬e.IsOutstanding) →
      ∀ x s', refusal? t (t.due now).instant = some x → fails x s') :
    (run table config now).Safe step (fun _ => True)
      (fun x s' =>
        fails x s' ∨ Cycled table t config now merges (objects s) (.error x) (objects s'))
      (fun r _ s' => Cycled table t config now merges (objects s) (.ok r) (objects s')) v s := by
  refine Call.safe_within _ ((h.refresh ht).bind_imp (fun _ _ => .inl) ?_)
  rintro _ t s₁ ⟨rfl, hobjects⟩
  rw [← hobjects] at ht ⊢
  refine Call.Safe.bind (h.safe_completePending ht) ?_
  rintro (_ | i) w s₂ hi
  swap
  · exact Call.safe_pure hi
  obtain ⟨rfl, rfl, hnone⟩ := hi
  refine Call.safe_view ?_
  cases hd : w.decide config now with
  | none => exact Call.safe_log (Call.safe_pure (.idle hnone hd))
  | some reason =>
    have hplan := Timeline.callsFor_nextPlan ht.strict hnone hd
    have hdue : refusal? w (w.due now).instant = none → (w.due now).IsReadable := by
      intro hr
      constructor
      · exact isValid_of_refusal? ht.isNamed (.inl (Timeline.ne_nil_of_decide hc hd)) rfl hr
      · exact ht.isNamed.isReadable_nextPlan
    refine (h.safe_schedule ht hdue fun x => hrefused hnone x _).bind_imp (fun _ _ => .inl) ?_
    rintro i w' s' ⟨hr, rfl, rfl, hp⟩
    have hnew := lt_of_refusal? hr
    cases hinline : config.isInline with
    | false => exact Call.safe_pure (.scheduled hnone hd hinline hplan hnew hp)
    | true =>
      have hmem : w.due now ∈ (w.upsert (w.due now)).entries := Timeline.mem_upsert_self w _
      have hout : (w.due now).IsOutstanding := by
        constructor
        · rfl
        · exact State.noConfusion
      refine (h.safe_execute hp.stored hmem hout .new).bind_imp ?_ ?_
      · rintro x s'' (hf | hx)
        · exact .inl hf
        · exact .inr (.executed hnone hd hinline hplan hnew (hx.after ht.strict hp))
      · intro i w'' s'' hi
        exact Call.safe_pure (.executed hnone hd hinline hplan hnew (hi.after ht.strict hp))

end Session.Solitary

namespace Calm

variable {α : Type} {o : Calm} {s : Scene} {table : Table} {t v : Timeline}

/-- Spans are for log records only. -/
theorem run_within (span : Span) (p : Program α) (s : Scene) :
    (p.within span).run o.answer s = p.run o.answer s := by
  induction p generalizing s with
  | done a => rfl
  | ask r next ih =>
    cases r with
    | report e => exact ih () s
    | storage r => exact ih _ _
    | ingest timestamp batch => exact ih _ _
    | merge timestamp plan => exact ih _ _

/-- What begins with a refresh goes on from the timeline that is stored. -/
theorem run_refresh_bind (h : t.IsStoredIn table s.objects) (f : Unit → Call α) :
    ((Session.refresh table >>= f).program v).run o.answer s =
      ((f ()).program t).run o.answer s := by
  obtain ⟨_, w, s', hr, rfl, rfl⟩ := (h.gives_refresh (o := o) (v := v)).run
  refine (Program.run_bind o.answer ((Session.refresh table).program v) _ s').trans ?_
  rw [hr]
  rfl

end Calm

namespace Compaction

variable {table : Table} {config : Config} {s : Scene}

/-- **A cycle in calm,** where all that is stored are readable markers at their places: whatever
the view of the session, it comes to the same, and to what the stored timeline calls for. -/
theorem cycles (hs : s.objects.IsOrderly table) (hc : config.IsValid) (now : Moment) (o : Calm) :
    ∃ t : Timeline, t.IsStoredIn table s.objects ∧
      ((∀ e ∈ t.entries, e.timestamp < t.newTimestamp now) → ∃ r w s',
        (∀ v, ((run table config now).program v).run o.answer s = ((r, w), s')) ∧
        Cycled table t config now (fun timestamp plan x => o.merge timestamp plan = x) s.objects r
          s'.objects) := by
  obtain ⟨t, ht⟩ := Timeline.IsStoredIn.exists_of_places hs
  refine ⟨t, ht, ?_⟩
  intro hnew
  have hcycle : ∀ v, ((cycle table config now).program v).run o.answer s =
      ((cycle table config now).program t).run o.answer s := by
    obtain ⟨f, hf⟩ : ∃ f, cycle table config now = Session.refresh table >>= f := ⟨_, rfl⟩
    intro v
    rw [hf, Calm.run_refresh_bind ht f, Calm.run_refresh_bind ht f]
  have hview : ∀ v, ((run table config now).program v).run o.answer s =
      ((run table config now).program t).run o.answer s :=
    fun v => (Calm.run_within _ _ s).trans ((hcycle v).trans (Calm.run_within _ _ s).symm)
  have hrefused : (∀ e ∈ t.entries, ¬e.IsOutstanding) → ∀ x (_ : Scene),
      Session.refusal? t (t.due now).instant = some x → False := by
    intro hnone x _ hr
    have haccepted : Session.refusal? t (t.due now).instant = none :=
      Session.refusal?_eq_none rfl hnew hnone
    rw [haccepted] at hr
    cases hr
  have hends := Calm.run_of_safe
    ((Session.solitary_calm o table).safe_run (v := t) ht hc.1 hrefused)
  generalize ((run table config now).program t).run o.answer s = x at hview hends
  obtain ⟨⟨r, w⟩, s'⟩ := x
  refine ⟨r, w, s', hview, ?_⟩
  cases r with
  | error e => exact hends.resolve_left id
  | ok r => exact hends

/-- Of two delta commits the first one has been compacted, and the other one is due. -/
theorem cycles_of_due :
    ∃ s t r w s', s.objects.IsOrderly .sample ∧ t.IsStoredIn .sample s.objects ∧
      (∀ e ∈ t.entries, e.timestamp < t.newTimestamp ⟨0, 0, by decide⟩) ∧
      (∀ v, ((run .sample ⟨true, 1, .ofSeconds 1⟩ ⟨0, 0, by decide⟩).program v).run
        Calm.plain.answer s = ((r, w), s')) ∧
      r = .ok (.executed ⟨⟨"19700101000000000"⟩, .commit, .completed⟩) ∧
      Cycled .sample t ⟨true, 1, .ofSeconds 1⟩ ⟨0, 0, by decide⟩
        (fun timestamp plan x => Calm.plain.merge timestamp plan = x) s.objects r s'.objects := by
  let first : Marker := ⟨⟨⟨"001"⟩, .deltaCommit, .completed⟩, .metadata ⟨["f"], 1⟩, none⟩
  let merged : Marker := ⟨⟨⟨"002"⟩, .commit, .completed⟩, .plan ⟨[⟨"001"⟩], ["f"]⟩, none⟩
  let second : Marker := ⟨⟨⟨"003"⟩, .deltaCommit, .completed⟩, .metadata ⟨["g"], 2⟩, none⟩
  let s : Scene := ⟨((Storage.Objects.empty.insert (Table.sample.markerAt ⟨"001"⟩)
    ⟨first.encode, 1⟩).insert (Table.sample.markerAt ⟨"002"⟩) ⟨merged.encode, 1⟩).insert
    (Table.sample.markerAt ⟨"003"⟩) ⟨second.encode, 1⟩, []⟩
  have hempty : Timeline.empty.IsStoredIn .sample .empty := .nothing _
  have hfirst := hempty.write (m := first) (by decide) 1
  have hmerged := hfirst.write (m := merged) (by decide) 1
  have hsecond := hmerged.write (m := second) (by decide) 1
  have hvalid : Config.IsValid ⟨true, 1, .ofSeconds 1⟩ := by decide
  obtain ⟨t, ht, hcycles⟩ := cycles (s := s) hsecond.isOrderly hvalid ⟨0, 0, by decide⟩ .plain
  obtain rfl := hsecond.eq ht
  have hnew : ∀ e ∈ (((Timeline.empty.upsert first).upsert merged).upsert second).entries,
      e.timestamp < (((Timeline.empty.upsert first).upsert merged).upsert second).newTimestamp
        ⟨0, 0, by decide⟩ := by
    decide +kernel
  obtain ⟨r, w, s', hrun, hcycled⟩ := hcycles hnew
  have hr : (((run .sample ⟨true, 1, .ofSeconds 1⟩ ⟨0, 0, by decide⟩).program .empty).run
      Calm.plain.answer s).1.1 =
        .ok (.executed ⟨⟨"19700101000000000"⟩, .commit, .completed⟩) := by
    decide +kernel
  rw [hrun .empty] at hr
  exact ⟨s, _, r, w, s', hsecond.isOrderly, ht, hnew, hrun, hr, hcycled⟩

end Compaction
end CommitTimeline
