/-
# The life of an instant

Any number of sessions refresh, append and transition on one storage that was empty
at first; their requests interleave in any order, from any views, and any of them may
fail. What is persisted for a timestamp then is a prefix of requested, in flight,
completed (`Pool.lifecycle`): an append that returned has created it, and each step
was taken by one transition that returned, from the marker which it had read, with
nothing written since it looked. The action, the time of the request and the details
change only as that transition says.
-/

import CommitTimeline.Proofs.Pool.Turns
import CommitTimeline.Proofs.Session.Stages

namespace CommitTimeline

namespace Operation

/-- The calls of a session on its timeline, without those that write or compact data. -/
def IsSession : Operation → Prop
  | refresh | append .. | transition .. => True
  | _ => False

/-- What a call of a session has asked and been answered when it returns. -/
def Does (table : Table) (own : List Exchange) : Operation → Prop
  | append instant details requestedAt => instant.state = .requested ∧
      Session.Creates table ⟨instant, details, requestedAt⟩ own
  | transition instant target details => instant.state.Leads target ∧
      ∃ current m, Session.Moves table instant target details current m own
  | _ => Session.Idle own

/-- Every call of a session does what its operation is for, and nothing else if it fails. -/
theorem safe_does {op : Operation} (h : op.IsSession) {table : Table} {v : Timeline} :
    (op.call table).Safe Alone Session.Idle (fun _ => Session.Idle)
      (fun _ _ own => op.Does table own) v [] := by
  cases op with
  | refresh =>
    refine Call.Safe.bind Session.safe_refresh ?_
    intro _ w own hl
    exact Call.safe_pure hl.1
  | append instant details requestedAt =>
    refine Call.Safe.bind (Session.safe_append instant details requestedAt) ?_
    rintro _ w own ⟨rfl, hr, -, hc⟩
    exact Call.safe_pure ⟨Session.state_of_refusal? hr, hc⟩
  | transition instant target details =>
    refine Call.Safe.bind (Session.safe_transition instant target details) ?_
    rintro _ w own ⟨rfl, hl, current, m, -, hm⟩
    exact Call.safe_pure ⟨hl, current, m, hm⟩
  | _ => cases h

end Operation

namespace Pool

/-- The task has appended the marker, and its call has returned. -/
def Appended (P : Pool) (table : Table) (i : Nat) (m : Marker) : Prop :=
  ∃ task, P.tasks[i]? = some task ∧ task.table = table ∧
    task.operation = .append m.instant m.details m.requestedAt ∧ task.Succeeded

/-- The task has moved the instant, and its call has returned. -/
def Transitioned (P : Pool) (table : Table) (i : Nat) (instant : Instant) (target : State)
    (details : Option Details) : Prop :=
  ∃ task, P.tasks[i]? = some task ∧ task.table = table ∧
    task.operation = .transition instant target details ∧ task.Succeeded

/-- The second stage comes from the first by one step, taken by the task of the second. -/
structure Advances (P : Pool) (table : Table) (a b : Stage) (target : State)
    (details : Option Details) : Prop where
  call : P.Transitioned table b.task a.marker.instant target details
  leads : a.marker.instant.state.Leads target
  state : b.marker.instant.state = target
  action : b.marker.instant.action = a.marker.instant.action ∨
    (a.marker.instant.action = .compaction ∧ b.marker.instant.action = .commit ∧
      target = .completed)
  details : b.marker.details = details.getD a.marker.details
  requestedAt : b.marker.requestedAt = a.marker.requestedAt
  /-- It has read the first stage, and nobody has written between its look at the version,
  its read and its write. -/
  undisturbed : History.Undisturbed P.history.acts b.task (table.markerAt a.marker.timestamp)
    a.marker.encode b.marker.encode

/-- How what is persisted for a timestamp has come about, from its first stage to its
last one. -/
structure Lifecycle (P : Pool) (table : Table) (t : Timestamp) (stages : List Stage) : Prop where
  /-- The stages are what was written to the place of the timestamp, by the tasks that did. -/
  persisted : (History.writesAt (table.markerAt t) P.history.acts).reverse =
    stages.map Stage.write
  /-- The last one is what is stored there. -/
  stored : P.history.objects.find? (table.markerAt t) =
    stages.getLast?.map fun a => ⟨a.marker.encode, stages.length⟩
  timestamp : ∀ a ∈ stages, a.marker.timestamp = t
  states : stages.map (·.marker.instant.state) <+: [.requested, .inflight, .completed]
  created : ∀ a ∈ stages.head?, P.Appended table a.task a.marker
  advanced : stages.IsChain fun a b => ∃ target details, P.Advances table a b target details
  /-- No task has written two stages. -/
  once : (stages.map (·.task)).Nodup
  /-- An append that returned has created the first stage: there is one at most. -/
  appended : ∀ i m, P.Appended table i m → m.timestamp = t → stages.head? = some ⟨i, m⟩
  /-- A transition that returned has written a stage that comes from the instant it was
  to move. -/
  transitioned : ∀ i instant target details, P.Transitioned table i instant target details →
    instant.timestamp = t → ∃ before a b after, stages = before ++ a :: b :: after ∧ b.task = i ∧
      a.marker.instant = instant
  /-- A call that failed, or has not returned, has written nothing. -/
  idle : ∀ i task, P.tasks[i]? = some task → ¬task.Succeeded → ∀ e ∈ P.own i, e.write? = none

/-- Any sessions, with any views, make any calls on their timelines. -/
def sessions (_ : Pool) (_ : Table) (op : Operation) (_ : Timeline) : Prop :=
  op.IsSession

namespace Reachable

variable {P : Pool} {i : Nat} {task : Task} {table : Table} {t : Timestamp}

/-- A task that has not succeeded has written nothing. -/
theorem idle_of_not_succeeded (h : Reachable sessions P) (hi : P.tasks[i]? = some task)
    (hs : ¬task.Succeeded) : Session.Idle (P.own i) := by
  have hc := h.conforms (fun ha => Operation.safe_does ha) hi
  split at hc
  · exact hc
  · rename_i r hr
    obtain ⟨e | r, v⟩ := r
    · exact hc
    · exact absurd ⟨r, v, hr⟩ hs

/-- A task that has succeeded has done what its operation is for. -/
theorem does_of_succeeded (h : Reachable sessions P) (hi : P.tasks[i]? = some task)
    (hs : task.Succeeded) : task.operation.Does task.table (P.own i) := by
  obtain ⟨r, v, hr⟩ := hs
  have hc := h.conforms (fun ha => Operation.safe_does ha) hi
  rw [hr] at hc
  exact hc

/-- Whoever has written something has returned. -/
theorem exists_of_write (h : Reachable sessions P) {e : Exchange} (he : e ∈ P.own i)
    (hw : e.write? ≠ none) :
    ∃ task, P.tasks[i]? = some task ∧ task.Succeeded ∧
      task.operation.Does task.table (P.own i) := by
  obtain ⟨task, hi⟩ := h.exists_task he
  by_cases hs : task.Succeeded
  · exact ⟨task, hi, hs, h.does_of_succeeded hi hs⟩
  · exact absurd (h.idle_of_not_succeeded hi hs e he).1 hw

/-- The marker of a write, and how the task came to it. -/
theorem written (h : Reachable sessions P) {later before : List Act} {e : Exchange} {data : Bytes}
    (ha : P.history.acts = later ++ ⟨i, e⟩ :: before)
    (hw : e.write? = some (table.markerAt t, data)) :
    ∃ m, History.Written table (fun m => P.Appended table i m ∧ m.instant.state = .requested)
      (fun instant target details =>
        P.Transitioned table i instant target details ∧ instant.state.Leads target)
      (History.own i before) m e := by
  have hown : P.own i = History.own i later ++ e :: History.own i before := by
    rw [own, ha, History.own_append, History.own_cons_self]
  have hne : e.write? ≠ none := by
    rw [hw]
    exact Option.some_ne_none _
  have he : e ∈ P.own i := by
    rw [hown]
    exact List.mem_append_right _ List.mem_cons_self
  obtain ⟨⟨u, op, rest⟩, hi, hs, hd⟩ := h.exists_of_write he hne
  rw [hown] at hd
  cases op with
  | append instant details requestedAt =>
    obtain ⟨hr, version, ho⟩ := hd
    obtain ⟨-, rfl, -⟩ := Session.eq_last_of_write ho.symm (by simp) hne
    obtain ⟨rfl, -⟩ := Table.markerAt_inj (Prod.mk.inj (Option.some.inj hw)).1
    exact ⟨_, .created ⟨⟨_, hi, rfl, rfl, hs⟩, hr⟩⟩
  | transition instant target details =>
    obtain ⟨hl, current, m, hm⟩ := hd
    obtain ⟨known, data, version, hdec, ho⟩ := hm.exchanges
    obtain ⟨hl0, rfl, hb⟩ := Session.eq_last_of_write ho.symm (by simp [Exchange.write?]) hne
    obtain ⟨rfl, -⟩ := Table.markerAt_inj (Prod.mk.inj (Option.some.inj hw)).1
    rw [hl0, hb] at hm
    rw [hb]
    exact ⟨m, .moved hm (List.append_nil _).symm ⟨⟨_, hi, rfl, rfl, hs⟩, hl⟩⟩
  | _ => exact absurd (hd e (List.mem_append_right _ List.mem_cons_self)).1 hne

/-- A task writes once. -/
theorem countP_own_le_one (h : Reachable sessions P) (i : Nat) (path : String) :
    (P.own i).countP (fun e => e.write?.map (·.1) = some path) ≤ 1 := by
  have hidle : ∀ {own : List Exchange}, (∀ e ∈ own, e.write? = none) →
      own.countP (fun e => e.write?.map (·.1) = some path) = 0 := by
    intro own hown
    rw [List.countP_eq_zero]
    intro e he
    rw [hown e he]
    simp
  have hlast : ∀ {own : List Exchange} (f : Exchange), (∀ e ∈ own, e.write? = none) →
      (f :: own).countP (fun e => e.write?.map (·.1) = some path) ≤ 1 := by
    intro own f hown
    rw [List.countP_cons, hidle hown]
    split <;> decide
  cases hi : P.tasks[i]? with
  | none =>
    rw [hidle fun e he => ?_]
    · exact Nat.zero_le 1
    · obtain ⟨task, ht⟩ := h.exists_task he
      rw [hi] at ht
      cases ht
  | some task =>
    by_cases hs : task.Succeeded
    · have hd := h.does_of_succeeded hi hs
      obtain ⟨u, op, rest⟩ := task
      cases op with
      | append instant details requestedAt =>
        obtain ⟨-, version, ho⟩ := hd
        rw [ho]
        exact hlast _ (by simp)
      | transition instant target details =>
        obtain ⟨-, current, m, hm⟩ := hd
        obtain ⟨known, data, version, -, ho⟩ := hm.exchanges
        rw [ho]
        exact hlast _ (by simp [Exchange.write?])
      | _ =>
        rw [hidle fun e he => (hd e he).1]
        exact Nat.zero_le 1
    · rw [hidle fun e he => (h.idle_of_not_succeeded hi hs e he).1]
      exact Nat.zero_le 1

/-- Of two stages in a row, a transition that its session called for led from one to the other. -/
theorem Advances.of_follows {a b : Stage} (h : History.Follows P.history.acts table
      (fun i instant target details =>
        P.Transitioned table i instant target details ∧ instant.state.Leads target) a b) :
    ∃ target details, P.Advances table a b target details := by
  obtain ⟨hu, target, details, ⟨hcall, hl⟩, hm⟩ := h
  refine ⟨target, details, hcall, hl, ?_, ?_, ?_, ?_, hu⟩
  · rw [hm]
    rfl
  · rw [hm]
    by_cases ht : target = .completed
    · subst ht
      have ha : (a.marker.after .completed details).instant.action =
          a.marker.instant.action.completed := rfl
      rw [ha]
      cases a.marker.instant.action with
      | deltaCommit => exact .inl rfl
      | compaction => exact .inr ⟨rfl, rfl, rfl⟩
      | commit => exact .inl rfl
    · left
      show (if target = .completed then _ else _) = _
      rw [if_neg ht]
  · rw [hm]
    rfl
  · rw [hm]
    rfl

end Reachable

variable {P : Pool} {table : Table} {t : Timestamp}

/-- **The life of an instant:** whatever the sessions on a storage do, and however they
interleave, what is persisted for a timestamp has come about in stages. -/
theorem lifecycle (h : Reachable sessions P) (table : Table) (t : Timestamp) :
    ∃ stages, P.Lifecycle table t stages := by
  obtain ⟨stages, hwrites, htime, hbegins, hfollows⟩ :=
    h.legal.exists_stages t fun later i e before data ha hw => h.written ha hw
  have hchain : stages.IsChain fun a b => ∃ target details, P.Advances table a b target details :=
    hfollows.imp fun a b => Reachable.Advances.of_follows
  have hleads : ∀ a b, (∃ target details, P.Advances table a b target details) →
      a.marker.instant.state.Leads b.marker.instant.state := by
    rintro a b ⟨target, details, ha⟩
    rw [ha.state]
    exact ha.leads
  have hmem : ∀ {i : Nat} {m : Marker} {condition : Storage.Precondition} {version : String},
      m.timestamp = t → Exchange.stored (table.markerAt t) m.encode condition version ∈ P.own i →
      ⟨i, m⟩ ∈ stages := by
    intro i m condition version ht hm
    have hw : ⟨i, m.encode⟩ ∈ History.writesAt (table.markerAt t) P.history.acts :=
      History.mem_writesAt.2 ⟨_, History.mem_own.1 hm, rfl, rfl⟩
    rw [← List.mem_reverse, hwrites, List.mem_map] at hw
    obtain ⟨⟨j, n⟩, ha, hw⟩ := hw
    obtain ⟨rfl, hn⟩ := Write.mk.inj hw
    exact Marker.encode_injective hn ▸ ha
  have hsplit : ∀ {a : Stage}, a ∈ stages →
      stages.head? = some a ∨ ∃ before b after, stages = before ++ b :: a :: after := by
    intro a ha
    obtain ⟨l, after, rfl⟩ := List.append_of_mem ha
    rcases List.eq_nil_or_concat l with rfl | ⟨before, b, rfl⟩
    · exact .inl rfl
    · exact .inr ⟨before, b, after, by simp⟩
  have hstep : ∀ {before after : List Stage} {a b : Stage}, stages = before ++ a :: b :: after →
      ∃ target details, P.Advances table a b target details := by
    rintro before after a b rfl
    exact (List.isChain_append_cons_cons.1 hchain).2.1
  refine ⟨stages, hwrites, ?_, htime,
    Stage.states_isPrefix (fun a ha => (hbegins a ha).2) hleads hchain,
    fun a ha => (hbegins a ha).1, hchain, ?_, ?_, ?_, ?_⟩
  · rw [h.legal.find?_eq, ← List.reverse_reverse (History.writesAt _ _), hwrites]
    rcases List.eq_nil_or_concat stages with rfl | ⟨l, a, rfl⟩
    · rfl
    · simp [Stage.write]
  · rw [List.nodup_iff_count]
    intro i
    have hc := h.countP_own_le_one i (table.markerAt t)
    rw [own, ← History.count_task_writesAt, ← List.count_reverse, ← List.map_reverse, hwrites,
      List.map_map] at hc
    exact hc
  · rintro i m ⟨task, hi, rfl, hop, hs⟩ rfl
    have hd := h.does_of_succeeded hi hs
    rw [hop] at hd
    obtain ⟨-, version, ho⟩ := hd
    have hm : ⟨i, m⟩ ∈ stages := hmem rfl (ho ▸ List.mem_cons_self)
    rcases hsplit hm with hm | ⟨before, a, after, hst⟩
    · exact hm
    · obtain ⟨target, details, ha⟩ := hstep hst
      obtain ⟨task', hi', -, hop', -⟩ := ha.call
      rw [hi, Option.some.injEq] at hi'
      rw [← hi', hop] at hop'
      cases hop'
  · rintro i instant target details ⟨task, hi, rfl, hop, hs⟩ rfl
    have hd := h.does_of_succeeded hi hs
    rw [hop] at hd
    obtain ⟨-, current, m, hm⟩ := hd
    obtain ⟨known, data, version, -, ho⟩ := hm.exchanges
    have hm : ⟨i, m⟩ ∈ stages := hmem hm.timestamp (ho ▸ List.mem_cons_self)
    rcases hsplit hm with hm | ⟨before, a, after, hst⟩
    · obtain ⟨task', hi', -, hop', -⟩ := (hbegins _ hm).1
      rw [hi, Option.some.injEq] at hi'
      rw [← hi', hop] at hop'
      cases hop'
    · obtain ⟨target', details', ha⟩ := hstep hst
      obtain ⟨task', hi', -, hop', -⟩ := ha.call
      rw [hi, Option.some.injEq] at hi'
      rw [← hi', hop, Operation.transition.injEq] at hop'
      exact ⟨before, a, ⟨i, m⟩, after, hst, rfl, hop'.1.symm⟩
  · intro i task hi hs e he
    exact (h.idle_of_not_succeeded hi hs e he).1

/-- A compaction is appended, and two sessions go for each of its steps. Both look and read before
either one writes. -/
def race : Pool :=
  let start (details : Details) : Operation :=
    .transition ⟨⟨"002"⟩, .compaction, .requested⟩ .inflight (some details)
  let finish (details : Option Details) : Operation :=
    .transition ⟨⟨"002"⟩, .compaction, .inflight⟩ .completed details
  let P := (empty.begun .sample
    (.append (.requested ⟨"002"⟩ .compaction) .empty (some ⟨0, 0, isMoment_zero⟩)) .empty).turns [0]
  let P := ((P.begun .sample (start (.plan ⟨[⟨"001"⟩], []⟩)) .empty).begun .sample
    (start .empty) .empty).turns [1, 1, 2, 2, 1, 2, 2]
  ((P.begun .sample (finish (some .empty)) .empty).begun .sample (finish none) .empty).turns
    [4, 4, 3, 3, 4, 3, 3]

/-- What the winners have written, after the append. -/
def raceStages : List Stage :=
  [⟨0, .requested ⟨"002"⟩ .compaction, .empty, some ⟨0, 0, isMoment_zero⟩⟩,
    ⟨1, ⟨⟨"002"⟩, .compaction, .inflight⟩, .plan ⟨[⟨"001"⟩], []⟩, some ⟨0, 0, isMoment_zero⟩⟩,
    ⟨4, ⟨⟨"002"⟩, .commit, .completed⟩, .plan ⟨[⟨"001"⟩], []⟩, some ⟨0, 0, isMoment_zero⟩⟩]

/-- The race is a run of sessions. -/
theorem reachable_race : Reachable sessions race := by
  unfold race
  exact .turns (.start (.start (.turns (.start (.start (.turns (.start .empty trivial) _) trivial)
    trivial) _) trivial) trivial) _

/-- **One session takes each step** of an instant that two sessions go for, to its completion. -/
theorem lifecycle_of_race :
    Reachable sessions race ∧
      (race.reply? 1 = some (.ok (.instant ⟨⟨"002"⟩, .compaction, .inflight⟩)) ∧
        race.reply? 2 = some (.error (.invalidTransition ⟨"002"⟩ .compaction
          "requested -> inflight" "compaction inflight")) ∧
        race.reply? 3 = some (.error (.invalidTransition ⟨"002"⟩ .compaction
          "inflight -> completed" "commit completed")) ∧
        race.reply? 4 = some (.ok (.instant ⟨⟨"002"⟩, .commit, .completed⟩))) ∧
      race.Lifecycle .sample ⟨"002"⟩ raceStages := by
  refine ⟨reachable_race, by decide +kernel, ?_⟩
  obtain ⟨stages, hs⟩ := lifecycle reachable_race .sample ⟨"002"⟩
  -- the writes tell the stages
  have hwrites : (History.writesAt (Table.sample.markerAt ⟨"002"⟩) race.history.acts).reverse =
      raceStages.map Stage.write := by
    decide +kernel
  obtain rfl : stages = raceStages :=
    Stage.write_injective.list_map (hs.persisted.symm.trans hwrites)
  exact hs

end Pool
end CommitTimeline
