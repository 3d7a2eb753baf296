/-
# Merges and completions agree

Any number of coordinators run, schedule and retry compactions on one storage that
was empty at first, others write data, and their requests interleave in any order; any
storage request and any merge may fail. Compactions are appended and moved by the
coordinators alone. Then every merge follows the plan that was recorded when the
compaction was appended, whoever asks for it; a compaction completes only after the
task that completes it has merged it; no two calls report the same completion; and a
call whose merge fails asks for nothing more and fails with an execution error
(`Pool.agreement`).
-/

import CommitTimeline.Proofs.Compaction.Exchanges
import CommitTimeline.Proofs.Pool.Turns
import Mathlib.Data.List.Nodup

namespace CommitTimeline

namespace Operation

/-- Compactions are left to the coordinators. -/
def SparesCompactions : Operation → Prop
  | append instant _ _ => instant.action = .deltaCommit
  | transition instant _ _ => instant.action = .deltaCommit
  | _ => True

/-- The compaction that a call reports as completed. -/
def completed? : Operation → Reply → Option Instant
  | run .., .cycle o => o.completed?
  | retryPending, .compaction i => i
  | createAt .., .deltaCommit d => d.compaction.completed?
  | start .., .deltaCommit d => d.compaction.completed?
  | _, _ => none

/-- A call that spares compactions goes through their stages in order, and has completed what it
reports. -/
theorem safe_call {op : Operation} (h : op.SparesCompactions) {table : Table} {v : Timeline} :
    (op.call table).Safe Alone (Compaction.Steady table) (Compaction.Fails table)
      (fun r _ own => Compaction.Steady table own ∧
        ∀ i, op.completed? r = some i → Compaction.Completes table i.timestamp own) v [] := by
  have hs : Compaction.Steady table [] := Compaction.steady_nil
  cases op with
  | refresh =>
    refine Call.Safe.bind (Compaction.safe_refresh hs) ?_
    rintro _ w l ⟨hl, -⟩
    exact Call.safe_pure ⟨hl, fun i hi => by cases hi⟩
  | append instant details requestedAt =>
    refine Call.Safe.bind (Compaction.safe_append hs (.inl h)) ?_
    rintro _ w l ⟨-, hl, -⟩
    exact Call.safe_pure ⟨hl, fun i hi => by cases hi⟩
  | transition instant target details =>
    obtain ⟨t, a, s⟩ := instant
    obtain rfl : a = .deltaCommit := h
    refine Call.Safe.bind (Compaction.safe_transition hs (fun h => absurd rfl h) ?_) ?_
    · intro hc
      cases target <;> cases hc
    rintro _ w l ⟨-, hl, -⟩
    exact Call.safe_pure ⟨hl, fun i hi => by cases hi⟩
  | run config now =>
    refine Call.Safe.bind (Compaction.safe_run hs) ?_
    rintro o w l ⟨hl, hc⟩
    exact Call.safe_pure ⟨hl, hc⟩
  | retryPending =>
    refine Call.Safe.bind (Compaction.safe_retryPending hs) ?_
    rintro o w l ⟨hl, hc⟩
    exact Call.safe_pure ⟨hl, hc⟩
  | scheduleAt config timestamp now =>
    refine Call.Safe.bind (Compaction.safe_scheduleAt hs) ?_
    rintro o w l hl
    exact Call.safe_pure ⟨hl, fun i hi => by cases hi⟩
  | createAt config timestamp batch now =>
    refine Call.Safe.bind (g := fun d _ l => Compaction.Steady table l ∧
      ∀ i, d.compaction.completed? = some i → Compaction.Completes table i.timestamp l) ?_ ?_
    · refine Call.Safe.bind (Compaction.safe_refresh hs) ?_
      rintro _ w l ⟨hl, -⟩
      exact Compaction.safe_commit hl
    · rintro d w l ⟨hl, hc⟩
      exact Call.safe_pure ⟨hl, hc⟩
  | start config batch now =>
    refine Call.Safe.bind (g := fun d _ l => Compaction.Steady table l ∧
      ∀ i, d.compaction.completed? = some i → Compaction.Completes table i.timestamp l) ?_ ?_
    · refine Call.Safe.bind (Compaction.safe_refresh hs) ?_
      rintro _ w l ⟨hl, -⟩
      exact Call.safe_view (Compaction.safe_commit hl)
    · rintro d w l ⟨hl, hc⟩
      exact Call.safe_pure ⟨hl, hc⟩

end Operation

namespace Compaction

/-- The plan is the one that was recorded when the compaction was appended. -/
def Recorded (table : Table) (t : Timestamp) (plan : Plan) (acts : List Act) : Prop :=
  ∃ w requestedAt, (History.writesAt (table.markerAt t) acts).getLast? = some w ∧
    w.data = Marker.encode ⟨.requested t .compaction, .plan plan, requestedAt⟩

/-- What was recorded stays so. -/
theorem Recorded.append {table : Table} {t : Timestamp} {plan : Plan} {acts : List Act}
    (h : Recorded table t plan acts) (later : List Act) :
    Recorded table t plan (later ++ acts) := by
  obtain ⟨w, requestedAt, hw, hdata⟩ := h
  refine ⟨w, requestedAt, ?_, hdata⟩
  rw [History.writesAt_append, List.getLast?_append, hw]
  rfl

/-- In sound exchanges each one is justified by those before it. -/
theorem Sound.justified {table : Table} {e : Exchange} {before : List Exchange} :
    ∀ {l : List Exchange}, Sound table (l ++ e :: before) → Justified table before e
  | [], h => h.1
  | _ :: _, h => justified h.2

end Compaction

namespace Pool

/-- Coordinators, writers of data, and sessions that spare compactions. -/
def coordinators (_ : Pool) (_ : Table) (op : Operation) (_ : Timeline) : Prop :=
  op.SparesCompactions

/-- The call has reported that the compaction of a timestamp is completed. -/
def Reports (P : Pool) (i : Nat) (table : Table) (t : Timestamp) : Prop :=
  ∃ task r instant, P.tasks[i]? = some task ∧ task.table = table ∧ task.Gave r ∧
    task.operation.completed? r = some instant ∧ instant.timestamp = t

/-- Merges and completions agree. -/
structure Agreement (P : Pool) : Prop where
  /-- A merge follows the plan that was recorded before. -/
  merges : ∀ later i timestamp plan x before,
    P.history.acts = later ++ ⟨i, ⟨.merge timestamp plan, x⟩⟩ :: before →
    ∃ task, P.tasks[i]? = some task ∧ Compaction.Recorded task.table timestamp plan before
  /-- A compaction is completed by a task that has merged it, by the recorded plan. -/
  completions : ∀ later i e before table (m : Marker),
    P.history.acts = later ++ ⟨i, e⟩ :: before →
    e.write? = some (table.markerAt m.timestamp, m.encode) →
    m.instant = ⟨m.timestamp, .commit, .completed⟩ →
    ∃ plan, Exchange.merged m.timestamp plan ∈ History.own i before ∧
      Compaction.Recorded table m.timestamp plan before
  /-- At most one call reports the completion of a compaction. -/
  reports : ∀ i j table t, P.Reports i table t → P.Reports j table t → i = j
  /-- After a merge that failed a call asks for nothing, and it has failed for that. -/
  failures : ∀ later i timestamp plan x before,
    P.history.acts = later ++ ⟨i, ⟨.merge timestamp plan, .error x⟩⟩ :: before →
    History.own i later = [] ∧ ∃ task reason sources view, P.tasks[i]? = some task ∧
      task.result? = some (.error (.execution reason sources), view)

namespace Reachable

variable {P : Pool} {i : Nat} {task : Task} {table : Table} {t : Timestamp} {m m' : Marker}
  {acts before later : List Act} {e : Exchange}

/-- Whatever is called, the exchanges of a coordinator are sound. -/
theorem sound_own (h : Reachable coordinators P) (hi : P.tasks[i]? = some task) :
    Compaction.Sound task.table (P.own i) := by
  have hc := h.conforms (fun ha => Operation.safe_call ha) hi
  split at hc
  · exact hc.sound
  · rename_i r hr
    obtain ⟨x | r, v⟩ := r
    · rcases hc with hc | ⟨timestamp, plan, x, before, -, hc, -⟩
      · exact hc.sound
      · exact hc
    · exact hc.1.sound

/-- Every exchange of a run is justified by what its coordinator exchanged before. -/
theorem justified (h : Reachable coordinators P) (ha : P.history.acts = later ++ ⟨i, e⟩ :: before) :
    ∃ task, P.tasks[i]? = some task ∧ Compaction.Justified task.table (History.own i before) e := by
  have hown : P.own i = History.own i later ++ e :: History.own i before := by
    rw [own, ha, History.own_append, History.own_cons_self]
  have he : e ∈ P.own i := by
    rw [hown]
    exact List.mem_append_right _ List.mem_cons_self
  obtain ⟨task, hi⟩ := h.exists_task he
  exact ⟨task, hi, Compaction.Sound.justified (hown ▸ h.sound_own hi)⟩

/-- Every write of coordinators puts a marker that is begun, or moved by a step. -/
theorem written_of_write (h : Reachable coordinators P)
    (ha : P.history.acts = later ++ ⟨i, e⟩ :: before) {path : String} {data : Bytes}
    (hw : e.write? = some (path, data)) :
    ∃ table m, path = table.markerAt m.timestamp ∧ data = m.encode ∧
      History.Written table Compaction.Begins Compaction.Steps (History.own i before) m e := by
  obtain ⟨task, hi, hj⟩ := h.justified ha
  obtain ⟨m, hm, -⟩ := hj.write (by rw [hw]; exact Option.some_ne_none _)
  have hpath := hm.write?
  rw [hw, Option.some.injEq, Prod.mk.injEq] at hpath
  exact ⟨task.table, m, hpath.1, hpath.2, hm⟩

/-- What is persisted of an instant at any time comes in stages, by steps that spare
compactions. -/
theorem exists_stages (h : Reachable coordinators P) (ha : P.history.acts = later ++ acts)
    (table : Table) (t : Timestamp) :
    ∃ stages : List Stage,
      (History.writesAt (table.markerAt t) acts).reverse = stages.map Stage.write ∧
      (∀ a ∈ stages, a.marker.timestamp = t) ∧
      (∀ a ∈ stages.head?, Compaction.Begins a.marker) ∧
      stages.IsChain (History.Follows acts table fun _ => Compaction.Steps) := by
  obtain ⟨s, hl⟩ : ∃ s, History.Legal ⟨acts, s⟩ := by
    have hl := h.legal
    rw [show P.history = ⟨later ++ acts, P.history.objects⟩ from ha ▸ rfl] at hl
    exact hl.of_suffix
  have hwritten : ∀ l i e before data, acts = l ++ ⟨i, e⟩ :: before →
      e.write? = some (table.markerAt t, data) → ∃ m,
        History.Written table Compaction.Begins Compaction.Steps (History.own i before) m e := by
    intro l i e before data hacts hw
    rw [hacts, ← List.append_assoc] at ha
    obtain ⟨table', m, hpath, -, hm⟩ := h.written_of_write ha hw
    obtain ⟨rfl, -⟩ := Table.markerAt_inj hpath
    exact ⟨m, hm⟩
  obtain ⟨stages, hwrites, htime, hbegins, hchain⟩ := hl.exists_stages t hwritten
  exact ⟨stages, hwrites, htime, hbegins, hchain⟩

/-- What a task knows was written to its place. -/
theorem exists_write_of_known (h : Reachable coordinators P) (ha : P.history.acts = later ++ acts)
    (hk : Compaction.Known table (History.own i acts) m) :
    ∃ w ∈ History.writesAt (table.markerAt m.timestamp) acts, w.data = m.encode := by
  rcases hk with ⟨path, data, hr, hd⟩ | ⟨condition, version, hw⟩
  · obtain ⟨a, b, rfl⟩ := List.append_of_mem (History.mem_own.1 hr)
    have hl := h.legal
    rw [show P.history = ⟨later ++ a ++ ⟨i, .read (table.place path) data⟩ :: b,
      P.history.objects⟩ by rw [List.append_assoc, ← ha]] at hl
    obtain ⟨w, ws, hw, rfl⟩ := hl.get
    have hmem : w ∈ History.writesAt (table.place path)
        (a ++ ⟨i, .read (table.place path) w.data⟩ :: b) := by
      rw [History.writesAt_append, History.writesAt_cons_of_idle rfl, hw]
      exact List.mem_append_right _ List.mem_cons_self
    obtain ⟨⟨j, f⟩, hf, -, hfw⟩ := History.mem_writesAt.1 hmem
    obtain ⟨c, d, hcd⟩ := List.append_of_mem hf
    rw [hcd, ← List.append_assoc] at ha
    -- only markers are written, so what was decoded is the marker of this place
    obtain ⟨table', m', hpath, hdata, -⟩ := h.written_of_write ha hfw
    obtain rfl : m = m' := Marker.eq_of_decode?_encode (hdata ▸ hd)
    obtain ⟨rfl, -⟩ := Table.place_inj hpath
    exact ⟨w, hpath ▸ hmem, hdata⟩
  · exact ⟨⟨i, m.encode⟩, History.mem_writesAt.2 ⟨_, History.mem_own.1 hw, rfl, rfl⟩, rfl⟩

/-- What a task knows of a timestamp is one of its stages. -/
theorem mem_stages_of_known (h : Reachable coordinators P) (ha : P.history.acts = later ++ acts)
    (hk : Compaction.Known table (History.own i acts) m) {stages : List Stage}
    (hs : (History.writesAt (table.markerAt m.timestamp) acts).reverse = stages.map Stage.write) :
    ∃ a ∈ stages, a.marker = m := by
  obtain ⟨w, hw, hdata⟩ := h.exists_write_of_known ha hk
  rw [← List.mem_reverse, hs, List.mem_map] at hw
  obtain ⟨a, ha, rfl⟩ := hw
  exact ⟨a, ha, Marker.encode_injective hdata⟩

/-- **A compaction keeps the plan it was appended with:** whatever a task knows of its
timestamp holds the plan that was recorded. -/
theorem recorded_of_known (h : Reachable coordinators P) (ha : P.history.acts = later ++ acts)
    (hk : Compaction.Known table (History.own i acts) m) (hc : m.instant.action = .compaction)
    (hk' : Compaction.Known table (History.own i acts) m') (ht : m'.timestamp = m.timestamp) :
    Compaction.Recorded table m.timestamp (m'.details.plan?.getD .empty) acts := by
  obtain ⟨stages, hwrites, htime, hbegins, hchain⟩ := h.exists_stages ha table m.timestamp
  obtain ⟨a, has, rfl⟩ := h.mem_stages_of_known ha hk hwrites
  obtain ⟨b, hbs, rfl⟩ := h.mem_stages_of_known ha hk' (ht ▸ hwrites)
  cases stages with
  | nil => cases has
  | cons first rest =>
    obtain ⟨hstate, hbegin⟩ := hbegins first rfl
    have hnot : first.marker.instant.action ≠ .deltaCommit := by
      intro hd
      have hall := hchain.induction (fun x => x.marker.instant.action = .deltaCommit) _
        (by
          rintro x y ⟨-, target, details, -, hy⟩ hx
          rw [hy]
          exact Marker.action_after_eq_deltaCommit.2 hx)
        (fun _ => hd) a has
      exact absurd (hc.symm.trans hall) (by decide)
    obtain ⟨haction, plan, hplan⟩ := hbegin.resolve_left hnot
    have hall := hchain.induction
      (fun x => x.marker.instant.action ≠ .deltaCommit ∧ x.marker.details = .plan plan) _
      (by
        rintro x y ⟨-, target, details, ⟨-, hdetails⟩, hy⟩ ⟨hx, hxp⟩
        rw [hy]
        refine ⟨fun hd => hx (Marker.action_after_eq_deltaCommit.1 hd), ?_⟩
        rw [hdetails hx]
        exact hxp)
      (fun _ => ⟨hnot, hplan⟩) b hbs
    rw [hall.2]
    refine ⟨first.write, first.marker.requestedAt, ?_, ?_⟩
    · rw [← List.head?_reverse, hwrites]
      rfl
    · obtain ⟨j, ⟨⟨t, c, s⟩, d, r⟩⟩ := first
      obtain rfl : c = .compaction := haction
      obtain rfl : s = .requested := hstate
      obtain rfl : d = .plan plan := hplan
      obtain rfl : t = a.marker.timestamp := htime _ List.mem_cons_self
      rfl

/-- Every merge is asked for with the plan that the marker in flight records. -/
theorem recorded_of_merge (h : Reachable coordinators P) {plan : Plan} {x : Except Error Unit}
    (ha : P.history.acts = later ++ ⟨i, ⟨.merge t plan, x⟩⟩ :: before) :
    ∃ task, P.tasks[i]? = some task ∧ Compaction.Recorded task.table t plan before := by
  obtain ⟨task, hi, hj⟩ := h.justified ha
  obtain ⟨m, m', hk, rfl, hc, hk', ht, rfl⟩ := hj.merge _ _ _ rfl
  rw [List.append_cons] at ha
  exact ⟨task, hi, h.recorded_of_known ha hk hc hk' ht⟩

/-- A completed compaction has been merged before, with the plan that is recorded. -/
theorem exists_merged_of_commit (h : Reachable coordinators P)
    (ha : P.history.acts = later ++ ⟨i, e⟩ :: before)
    (hw : e.write? = some (table.markerAt m.timestamp, m.encode))
    (hm : m.instant.action = .commit) :
    ∃ plan, Exchange.merged m.timestamp plan ∈ History.own i before ∧
      Compaction.Recorded table m.timestamp plan before := by
  obtain ⟨task, hi, hj⟩ := h.justified ha
  obtain ⟨n, hn, hmerged⟩ := hj.write (by rw [hw]; exact Option.some_ne_none _)
  have hpath := hn.write?
  rw [hw, Option.some.injEq, Prod.mk.injEq] at hpath
  obtain rfl := Marker.encode_injective hpath.2
  obtain ⟨rfl, -⟩ := Table.markerAt_inj hpath.1
  obtain ⟨plan, hp⟩ := hmerged hm
  obtain ⟨a, b, rfl⟩ := List.append_of_mem (History.mem_own.1 hp)
  rw [List.append_cons, ← List.append_assoc] at ha
  obtain ⟨task', hi', hr⟩ := h.recorded_of_merge ha
  rw [hi, Option.some.injEq] at hi'
  subst hi'
  refine ⟨plan, hp, ?_⟩
  rw [List.append_cons]
  exact hr.append _

/-- Who reports a completion has written it. -/
theorem exists_stage_of_reports (h : Reachable coordinators P) (hr : P.Reports i table t)
    {stages : List Stage} (hs : (History.writesAt (table.markerAt t) P.history.acts).reverse =
      stages.map Stage.write) :
    ∃ a ∈ stages, a.task = i ∧ a.marker.instant.state = .completed := by
  obtain ⟨task, r, instant, hi, rfl, ⟨v, hresult⟩, hc, rfl⟩ := hr
  have hconforms := h.conforms (fun ha => Operation.safe_call ha) hi
  rw [hresult] at hconforms
  obtain ⟨m, condition, version, hm, hw⟩ := hconforms.2 instant hc
  have ht : m.timestamp = instant.timestamp := by
    rw [Marker.timestamp, hm]
  have hmem : ⟨i, m.encode⟩ ∈ History.writesAt (task.table.markerAt m.timestamp) P.history.acts :=
    History.mem_writesAt.2 ⟨_, History.mem_own.1 hw, rfl, rfl⟩
  rw [ht, ← List.mem_reverse, hs, List.mem_map] at hmem
  obtain ⟨a, ha, hwrite⟩ := hmem
  obtain ⟨htask, hdata⟩ := Write.mk.inj hwrite
  refine ⟨a, ha, htask, ?_⟩
  rw [Marker.encode_injective hdata, hm]

/-- Who has asked for a merge that failed has failed for that. -/
theorem failed_of_merge (h : Reachable coordinators P) {plan : Plan} {x : Error}
    (ha : P.history.acts = later ++ ⟨i, ⟨.merge t plan, .error x⟩⟩ :: before) :
    History.own i later = [] ∧ ∃ task reason sources view, P.tasks[i]? = some task ∧
      task.result? = some (.error (.execution reason sources), view) := by
  have hown : P.own i =
      History.own i later ++ ⟨.merge t plan, .error x⟩ :: History.own i before := by
    rw [own, ha, History.own_append, History.own_cons_self]
  have hmem : ⟨.merge t plan, .error x⟩ ∈ P.own i := by
    rw [hown]
    exact List.mem_append_right _ List.mem_cons_self
  obtain ⟨task, hi⟩ := h.exists_task hmem
  have hconforms := h.conforms (fun ha => Operation.safe_call ha) hi
  split at hconforms
  · exact absurd hmem (hconforms.merges t plan x)
  · rename_i r hr
    obtain ⟨y | r, v⟩ := r
    · rcases hconforms with hs | ⟨t', plan', x', rest, ho, -, hs, reason, sources, rfl⟩
      · exact absurd hmem (hs.merges t plan x)
      · refine ⟨?_, task, reason, sources, v, hi, hr⟩
        rw [hown] at ho
        cases hl : History.own i later with
        | nil => rfl
        | cons f l =>
          rw [hl] at ho
          obtain ⟨-, rfl⟩ := List.cons.inj ho
          exact absurd (List.mem_append_right l List.mem_cons_self) (hs.merges t plan x)
    · exact absurd hmem (hconforms.1.merges t plan x)

end Reachable

/-- **Merges and completions agree,** however coordinators interleave. -/
theorem agreement {P : Pool} (h : Reachable coordinators P) : P.Agreement where
  merges := fun later i timestamp plan x before ha => h.recorded_of_merge ha
  completions := fun later i e before table m ha hw hm =>
    h.exists_merged_of_commit ha hw (by rw [hm])
  reports := by
    intro i j table t hi hj
    have hall : P.history.acts = [] ++ P.history.acts := rfl
    obtain ⟨stages, hwrites, -, hbegins, hchain⟩ := h.exists_stages hall table t
    have hstates : stages.map (·.marker.instant.state) <+: [.requested, .inflight, .completed] := by
      refine Stage.states_isPrefix (fun a ha => (hbegins a ha).1) ?_ hchain
      rintro a b ⟨-, target, details, ⟨hl, -⟩, hb⟩
      rw [hb]
      exact hl
    have hnodup : (stages.map (·.marker.instant.state)).Nodup :=
      hstates.sublist.nodup (by decide)
    obtain ⟨a, ha, rfl, hac⟩ := h.exists_stage_of_reports hi hwrites
    obtain ⟨b, hb, rfl, hbc⟩ := h.exists_stage_of_reports hj hwrites
    rw [List.inj_on_of_nodup_map hnodup ha hb (hac.trans hbc.symm)]
  failures := fun later i timestamp plan x before ha => h.failed_of_merge ha

/-- What a reply tells of a call. -/
theorem reports_of_reply? {P : Pool} {i : Nat} {table : Table} {op : Operation} {r : Reply}
    {instant : Instant}
    (hi : (P.tasks[i]?.map fun task => (task.table, task.operation)) = some (table, op))
    (hr : P.reply? i = some (.ok r)) (hc : op.completed? r = some instant) :
    P.Reports i table instant.timestamp := by
  obtain ⟨task, ht, hop⟩ := Option.map_eq_some_iff.1 hi
  obtain ⟨rfl, rfl⟩ := Prod.mk.inj hop
  rw [reply?, ht, Option.bind_some] at hr
  obtain ⟨⟨-, view⟩, hresult, rfl⟩ := Option.map_eq_some_iff.1 hr
  exact ⟨task, r, instant, ht, rfl, ⟨view, hresult⟩, hc, rfl⟩

/-- A delta commit is written and a compaction of it scheduled, and then three coordinators retry
it. All have seen it in flight when the first one fails to merge. The other two merge it, and then
go on. -/
def rivals : Pool :=
  let now : Moment := ⟨0, 0, isMoment_zero⟩
  let config : Config := ⟨false, 1, .ofSeconds 3600⟩
  let P := empty.called .plain .sample (.createAt config ⟨"001"⟩ .empty now) .empty
  let P := P.called .plain .sample (.scheduleAt config ⟨"002"⟩ now) .empty
  let P := ((P.begun .sample .retryPending .empty).begun .sample .retryPending .empty).begun
    .sample .retryPending .empty
  ((P.turns [2, 2, 2, 2, 2, 2, 3, 3, 3, 4, 4, 4]).answered .unmerging 2).turns
    [3, 4, 3, 3, 4, 4, 3, 4, 4]

/-- The rivals are a run of coordinators. -/
theorem reachable_rivals : Reachable coordinators rivals := by
  unfold rivals
  refine .turns (.answered (.turns (.start (.start (.start (.called (.called .empty ?_) ?_) ?_) ?_)
    ?_) _) _ _) _ <;>
  first
  | exact fun _ => trivial
  | exact trivial

/-- What was asked to be merged, by which tasks, and whether it was done; the latest first. -/
def merges (P : Pool) : List (Nat × Timestamp × Plan × Bool) :=
  P.history.acts.filterMap fun
    | ⟨i, .merge timestamp plan, x⟩ => some (i, timestamp, plan, x.isOk)
    | _ => none

/-- **One of three rivals reports the completion:** one has failed to merge, and one is late. -/
theorem agreement_of_rivals :
    Reachable coordinators rivals ∧
      (rivals.merges.reverse = [(2, ⟨"002"⟩, ⟨[⟨"001"⟩], []⟩, false),
          (3, ⟨"002"⟩, ⟨[⟨"001"⟩], []⟩, true), (4, ⟨"002"⟩, ⟨[⟨"001"⟩], []⟩, true)] ∧
        rivals.reply? 2 = some (.error (.execution "merge failed for compaction 002"
          ["serialization error: disk full"])) ∧
        rivals.reply? 4 = some (.error (.invalidTransition ⟨"002"⟩ .compaction
          "inflight -> completed" "commit completed"))) ∧
      rivals.Reports 3 .sample ⟨"002"⟩ ∧ rivals.Agreement := by
  have hcomputed : (rivals.merges.reverse = [(2, ⟨"002"⟩, ⟨[⟨"001"⟩], []⟩, false),
        (3, ⟨"002"⟩, ⟨[⟨"001"⟩], []⟩, true), (4, ⟨"002"⟩, ⟨[⟨"001"⟩], []⟩, true)] ∧
      rivals.reply? 2 = some (.error (.execution "merge failed for compaction 002"
        ["serialization error: disk full"])) ∧
      rivals.reply? 4 = some (.error (.invalidTransition ⟨"002"⟩ .compaction
        "inflight -> completed" "commit completed"))) ∧
      (rivals.tasks[3]?.map fun task => (task.table, task.operation)) =
        some (.sample, .retryPending) ∧
      rivals.reply? 3 = some (.ok (.compaction (some ⟨⟨"002"⟩, .commit, .completed⟩))) := by
    decide +kernel
  obtain ⟨hmerges, htask, hreply⟩ := hcomputed
  exact ⟨reachable_rivals, hmerges, reports_of_reply? htask hreply rfl,
    agreement reachable_rivals⟩

end Pool
end CommitTimeline
