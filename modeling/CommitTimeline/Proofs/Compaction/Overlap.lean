/-
# Coordinators that overlap

A coordinator schedules a compaction only if its listing shows none that is outstanding,
but it writes the marker later, and at a timestamp of its own. So two sessions whose calls
overlap can each schedule one (`Pool.not_single`). It comes to no more than that: where
nothing was outstanding, at most two compactions are, of different sessions, and the later
one was requested by a call that had listed the markers before the earlier one was
requested (`Pool.contended`).

What a listing shows is what was written before it, and a compaction that is outstanding
has been so since it was requested. So a call that requests a compaction has listed the
markers before anybody requested another one that is still outstanding
(`Pool.Reachable.exists_listed`).
-/

import CommitTimeline.Proofs.Compaction.Upkeep
import CommitTimeline.Proofs.Pool.Turns
import CommitTimeline.Proofs.Pool.Writes
import CommitTimeline.Proofs.Session.Reload

namespace CommitTimeline

namespace Compaction

/-- A view was loaded just before, and showed no compaction that was outstanding. -/
def LooksBefore (table : Table) (before : List Exchange) : Prop :=
  ∃ v own l, before = own ++ l ∧ Session.Loads table v own ∧ ∀ e ∈ v.entries, ¬e.IsOutstanding

/-- Before anything is created, a view shows that no compaction is outstanding. -/
def Looks (table : Table) : List Exchange → Prop
  | [] => True
  | e :: before => (e.creation? ≠ none → LooksBefore table before) ∧ Looks table before

variable {table : Table} {own l before : List Exchange} {e : Exchange} {v : Timeline}

/-- Who has created something had looked before. -/
theorem Looks.looksBefore : ∀ {l : List Exchange}, Looks table (l ++ e :: before) →
    e.creation? ≠ none → LooksBefore table before
  | [], h => h.1
  | _ :: _, h => looksBefore h.2

/-- What creates nothing need not look. -/
theorem Looks.cons (h : Looks table own) (he : e.creation? = none) : Looks table (e :: own) :=
  ⟨fun hne => absurd he hne, h⟩

/-- What writes nothing need not look. -/
theorem Looks.append_idle (h : Looks table own) (hl : Session.Idle l) : Looks table (l ++ own) := by
  induction l with
  | nil => exact h
  | cons e l ih =>
    refine (ih fun f hf => hl f (List.mem_cons_of_mem e hf)).cons ?_
    exact Exchange.creation?_of_idle (hl e List.mem_cons_self).1

/-- A coordinator creates nothing but a compaction, and looks before it does. -/
theorem upholds_looks (table : Table) :
    Upholds Alone table (Looks table)
      (fun v own => Looks table own ∧ ∃ l' l, own = l' ++ l ∧ Session.Loads table v l')
      (fun _ own => Looks table own) where
  known := And.left
  kept := id
  refresh := by
    intro v own h
    refine (Session.safe_after_idle (fun _ => h.append_idle) Session.safe_refresh).imp ?_
    rintro _ w _ ⟨l', rfl, hl⟩
    exact ⟨h.append_idle hl.1, l', own, rfl, hl⟩
  merge := by
    rintro v own _ timestamp plan x h rfl
    exact h.cons rfl
  compact := by
    intro v own e target h he ha
    refine (Session.safe_after_idle (fun _ => h.append_idle)
      (Session.safe_transition e.instant target none)).imp ?_
    rintro i w _ ⟨l', rfl, rfl, -, current, m, rfl, hm⟩
    obtain ⟨known, data, version, -, rfl⟩ := hm.exchanges
    have hread : Looks table ([.read (table.markerAt e.instant.timestamp) data,
        .described (table.markerAt e.instant.timestamp) known] ++ own) :=
      h.append_idle ((Session.idle_nil.cons_storage rfl).cons_storage rfl)
    refine ⟨rfl, hread.cons rfl, m, Timeline.mem_upsert_self v m, ?_⟩
    rw [hm.marker]

/-- A compaction is scheduled from a view that was loaded just before. -/
theorem schedules_looks {timestamp : Timeline → Timestamp} {now : Moment} :
    Schedules Alone table (Looks table)
      (fun v own => Looks table own ∧ ∃ l' l, own = l' ++ l ∧ Session.Loads table v l')
      (fun _ own => Looks table own) timestamp now := by
  rintro v own ⟨h, l', l, rfl, hl⟩
  refine (Session.safe_after_idle (fun _ => h.append_idle) (Session.safe_append _ _ _)).imp ?_
  rintro i w _ ⟨_, rfl, rfl, hr, rfl, version, rfl⟩
  refine ⟨rfl, ⟨fun _ => ⟨v, l', l, rfl, hl, ?_⟩, h⟩, _, Timeline.mem_upsert_self v _, rfl⟩
  exact Session.not_isOutstanding_of_refusal? hr rfl

end Compaction

namespace Operation

/-- The calls of a coordinator. -/
def IsCoordinator : Operation → Prop
  | run .. | retryPending | scheduleAt .. => True
  | _ => False

/-- A coordinator looks before it creates anything. -/
theorem safe_looks {op : Operation} {table : Table} {v : Timeline} :
    (op.call table).Safe Alone (fun own => op.IsCoordinator → Compaction.Looks table own)
      (fun _ own => op.IsCoordinator → Compaction.Looks table own)
      (fun _ _ own => op.IsCoordinator → Compaction.Looks table own) v [] := by
  have hU := Compaction.upholds_looks table
  by_cases hop : op.IsCoordinator
  · have hcall : (op.call table).Safe Alone (Compaction.Looks table)
        (fun _ => Compaction.Looks table) (fun _ _ => Compaction.Looks table) v [] := by
      cases op with
      | run config now =>
        exact Call.Safe.bind (hU.safe_run Compaction.schedules_looks trivial)
          fun _ _ _ hl => Call.safe_pure hl
      | retryPending =>
        exact Call.Safe.bind (hU.safe_retryPending trivial) fun _ _ _ hl => Call.safe_pure hl
      | scheduleAt config timestamp now =>
        exact Call.Safe.bind (hU.safe_scheduleAt Compaction.schedules_looks trivial)
          fun _ _ _ hl => Call.safe_pure hl
      | _ => cases hop
    exact hcall.mono (fun _ hl _ => hl) (fun _ _ hl _ => hl) fun _ _ _ hl _ => hl
  · exact safe_stepwise.mono (fun _ _ h => absurd h hop) (fun _ _ _ h => absurd h hop)
      fun _ _ _ _ h => absurd h hop

end Operation
namespace Pool

/-- What a pool comes to if from some moment on only two sessions ask, and call coordinators on
one table, each session one call at a time; `session` tells of each call whose it is. -/
inductive Contends (table : Table) (session : Nat → Bool) (P₀ : Pool) : Pool → Prop where
  | start : Contends table session P₀ P₀
  | call {P : Pool} {op : Operation} {view : Timeline} (h : Contends table session P₀ P)
      (hop : op.IsCoordinator)
      (hdone : ∀ (j : Nat) (task : Task), P₀.tasks.length ≤ j → P.tasks[j]? = some task →
        session j = session P.tasks.length → task.result?.isSome) :
      Contends table session P₀ (P.begun table op view)
  | step {P P' : Pool} {a : Act} (h : Contends table session P₀ P) (hs : Step P P')
      (ha : P'.history.acts = a :: P.history.acts) (hnew : P₀.tasks.length ≤ a.task) :
      Contends table session P₀ P'

/-- A call has requested the second compaction after a call of the other session had requested
the first, but it had listed the markers before that. -/
def Overtakes (P : Pool) (table : Table) (session : Nat → Bool) (m m' : Marker) : Prop :=
  ∃ later i' e' between i e before found, session i ≠ session i' ∧
    P.history.acts = later ++ ⟨i', e'⟩ :: (between ++ ⟨i, e⟩ :: before) ∧
    e.creation?.map (·.1) = some (table.markerAt m.timestamp) ∧
    e'.creation?.map (·.1) = some (table.markerAt m'.timestamp) ∧
    Exchange.listed (table.place Table.timelineDirectory) found ∈ History.own i' before

/-- How the compactions that are outstanding have come about. -/
structure Contended (P : Pool) (table : Table) (session : Nat → Bool) : Prop where
  /-- There are two at most. -/
  two : ∀ m₁ m₂ m₃, P.Stores table m₁ → P.Stores table m₂ → P.Stores table m₃ →
    m₁.IsOutstanding → m₂.IsOutstanding → m₃.IsOutstanding → m₁ = m₂ ∨ m₂ = m₃ ∨ m₁ = m₃
  /-- If there are two, the calls that requested them overlapped. -/
  overtakes : ∀ m m', P.Stores table m → P.Stores table m' → m.IsOutstanding →
    m'.IsOutstanding → m ≠ m' → P.Overtakes table session m m' ∨ P.Overtakes table session m' m

/-- A step is one of a task that waits for an answer. -/
theorem Step.exists_asking {P P' : Pool} (h : Step P P') :
    ∃ i task e rest, P.tasks[i]? = some task ∧ task.result? = none ∧
      P'.history.acts = ⟨i, e⟩ :: P.history.acts ∧ P'.tasks = P.tasks.set i { task with rest } := by
  obtain ⟨hi, hr, hs⟩ := h
  cases hs
  refine ⟨_, _, _, _, hi, ?_, rfl, rfl⟩
  rw [Task.result?, hr]

namespace Contends

variable {P P₀ : Pool} {table : Table} {session : Nat → Bool}

/-- What two sessions come to is reachable from where they began. -/
theorem reachable (h : Contends table session P₀ P) (h₀ : Reachable anyone P₀) :
    Reachable anyone P := by
  induction h with
  | start => exact h₀
  | call _ _ _ ih => exact .start ih trivial
  | step _ hs _ _ ih => exact .step ih hs

/-- The calls that were begun since are those of coordinators. -/
theorem isCoordinator (h : Contends table session P₀ P) {i : Nat} {task : Task}
    (hi : P.tasks[i]? = some task) (hnew : P₀.tasks.length ≤ i) :
    task.table = table ∧ task.operation.IsCoordinator := by
  induction h generalizing i task with
  | start =>
    have hlt := (List.getElem?_eq_some_iff.1 hi).1
    omega
  | @call P op view h hop _ ih =>
    change (P.tasks ++ [Task.start table op view])[i]? = some task at hi
    rw [List.getElem?_append] at hi
    split at hi
    · exact ih hi hnew
    · rw [List.getElem?_singleton] at hi
      split at hi
      · obtain rfl := Option.some.inj hi
        exact ⟨rfl, hop⟩
      · cases hi
  | step h hs _ _ ih =>
    obtain ⟨j, asking, e, rest, hj, -, -, htasks⟩ := hs.exists_asking
    rw [htasks, List.getElem?_set] at hi
    split at hi
    · rename_i hij
      subst hij
      split at hi
      · obtain rfl := Option.some.inj hi
        have hasking := ih hj hnew
        exact hasking
      · cases hi
    · exact ih hi hnew

/-- What was done since was done by the calls that were begun since. -/
theorem exists_acts (h : Contends table session P₀ P) :
    ∃ l, P.history.acts = l ++ P₀.history.acts ∧ ∀ a ∈ l, P₀.tasks.length ≤ a.task := by
  induction h with
  | start => exact ⟨[], rfl, by simp⟩
  | call _ _ _ ih => exact ih
  | @step P P' a h hs ha hnew ih =>
    obtain ⟨l, hl, hall⟩ := ih
    exact ⟨a :: l, by rw [ha, hl]; rfl, List.forall_mem_cons.2 ⟨hnew, hall⟩⟩

/-- **The calls of a session do not overlap:** where a later one has begun, an earlier one has
returned, and what the earlier one did comes before all that the later one does. -/
theorem one_at_a_time (h : Contends table session P₀ P) (h₀ : Reachable anyone P₀) {j k : Nat}
    (hj : P₀.tasks.length ≤ j) (hjk : j < k) (hs : session j = session k)
    (hk : k < P.tasks.length) :
    (∀ task, P.tasks[j]? = some task → task.result?.isSome) ∧
      ∀ later e before, P.history.acts = later ++ ⟨k, e⟩ :: before → ∀ a ∈ later, a.task ≠ j := by
  induction h with
  | start => omega
  | @call P op view h hop hdone ih =>
    rw [begun, List.length_append, List.length_singleton] at hk
    have hjlt : j < P.tasks.length := by omega
    have htasks : (P.begun table op view).tasks[j]? = P.tasks[j]? :=
      List.getElem?_append_left hjlt
    rw [htasks]
    by_cases hlast : k = P.tasks.length
    · subst hlast
      refine ⟨fun task ht => hdone j task hj ht hs, ?_⟩
      intro later e before ha
      have hmem : (⟨P.tasks.length, e⟩ : Act) ∈ P.history.acts := by
        rw [show P.history.acts = _ from ha]
        exact List.mem_append_right _ List.mem_cons_self
      exact absurd ((h.reachable h₀).task_lt _ hmem) (Nat.lt_irrefl _)
    · exact ih (by omega)
  | @step P P' a h hstep ha hnew ih =>
    obtain ⟨i, asking, e, rest, hi, hasks, hacts, htasks⟩ := hstep.exists_asking
    rw [htasks, List.length_set] at hk
    obtain ⟨hreturned, hbefore⟩ := ih hk
    -- a call that has returned asks for nothing
    have hij : i ≠ j := by
      rintro rfl
      have hsome := hreturned asking hi
      rw [hasks] at hsome
      cases hsome
    refine ⟨?_, ?_⟩
    · rw [htasks, List.getElem?_set_ne hij]
      exact hreturned
    · intro later f before hsplit
      rw [hacts] at hsplit
      cases later with
      | nil =>
        intro b hb
        cases hb
      | cons b later =>
        obtain ⟨rfl, htail⟩ := List.cons.inj hsplit
        exact List.forall_mem_cons.2 ⟨hij, hbefore later f before htail⟩

end Contends

variable {P P₀ : Pool} {table : Table} {session : Nat → Bool} {m m' : Marker}

/-- A coordinator in a pool has looked before it created anything. -/
theorem Reachable.looks_own (h : Reachable anyone P) {i : Nat} {task : Task}
    (hi : P.tasks[i]? = some task) (hop : task.operation.IsCoordinator) :
    Compaction.Looks task.table (P.own i) := by
  have hc := h.conforms (fun _ => Operation.safe_looks) hi
  split at hc
  · exact hc hop
  · rename_i r hr
    obtain ⟨x | r, v⟩ := r
    · exact hc hop
    · exact hc hop

/-- **A listing that shows nothing outstanding comes before every write** of what is outstanding
still. -/
theorem Reachable.exists_listed (h : Reachable anyone P) {later acts : List Act} {i : Nat}
    {l l' : List Exchange} {v : Timeline} {t : Timestamp} (ha : P.history.acts = later ++ acts)
    (hown : History.own i acts = l ++ l') (hl : Session.Loads table v l)
    (hnone : ∀ e ∈ v.entries, ¬e.IsOutstanding)
    (hall : AllOutstanding table t P.history.acts) :
    ∃ after found earlier,
      acts = after ++ ⟨i, .listed (table.place Table.timelineDirectory) found⟩ :: earlier ∧
      History.writesAt (table.markerAt t) earlier = [] ∧
      ∀ a ∈ after, a.task = i → a.exchange.write? = none := by
  obtain ⟨hidle, found, markers, hfound, hread, rfl⟩ := hl
  have hacts : ∀ e ∈ l, (⟨i, e⟩ : Act) ∈ P.history.acts := by
    intro e he
    rw [ha]
    exact List.mem_append_right _ (History.mem_own.1 (hown ▸ List.mem_append_left _ he))
  obtain ⟨l₁, l₂, hl⟩ := List.append_of_mem hfound
  rw [hl, List.append_assoc] at hown
  obtain ⟨after, earlier, rfl, hafter, -⟩ := History.exists_of_own_eq hown
  refine ⟨after, found, earlier, rfl, ?_, ?_⟩
  · by_contra hne
    -- what was written before shows in the listing, so it was read
    have hlegal := h.legal_acts ha
    rw [← List.append_assoc] at hlegal
    obtain ⟨s₀, s₁, hearlier, hleads, -⟩ := hlegal.of_append
    have hfind := hearlier.find?_eq (table.markerAt t)
    change s₀.find? (table.markerAt t) = _ at hfind
    split at hfind
    · rename_i hnil
      exact hne hnil
    have hsearched := (Storage.Objects.mem_searched hleads.1).2
      ⟨table.isSearched_markerPath t, _, hfind⟩
    obtain ⟨x, hx, -, data, hr, hd⟩ := Session.exists_mem_readAt hread hsearched
    obtain ⟨w, hw, rfl⟩ := h.exists_write_of_read (hacts _ hr)
    obtain ⟨m, hdata, -, ho⟩ := hall w hw
    obtain rfl : x = m := Marker.eq_of_decode?_encode (hdata ▸ hd)
    exact hnone x (Timeline.mem_ofEntries.2 hx) ho
  · intro a hmem ht
    subst ht
    have hexchange : a.exchange ∈ l₁ := hafter ▸ History.mem_own.2 hmem
    exact hidle.not_write _ (hl ▸ List.mem_append_left _ hexchange)

namespace Contends

/-- The act has created the marker of a timestamp, since the sessions contend. -/
def Created (P₀ P : Pool) (table : Table) (t : Timestamp) (a : Act) : Prop :=
  a ∈ P.history.acts ∧ P₀.tasks.length ≤ a.task ∧
    a.exchange.creation?.map (·.1) = some (table.markerAt t)

/-- Where nothing was outstanding, what is outstanding was created since. -/
theorem exists_created (h : Contends table session P₀ P) (h₀ : Reachable anyone P₀)
    (hnone : ∀ m, P₀.Stores table m → ¬m.IsOutstanding) (hs : P.Stores table m)
    (ho : m.IsOutstanding) : ∃ a, Created P₀ P table m.timestamp a := by
  have hP := h.reachable h₀
  obtain ⟨w, ws, hw, -⟩ := hP.exists_write_of_stores hs
  obtain ⟨later, i, e, before, ha, he⟩ := hP.exists_creation (by
    rw [hw]
    exact List.cons_ne_nil _ _)
  have hmem : (⟨i, e⟩ : Act) ∈ P.history.acts := by
    rw [ha]
    exact List.mem_append_right _ List.mem_cons_self
  refine ⟨⟨i, e⟩, hmem, ?_, he⟩
  obtain ⟨l, hl, hnew⟩ := h.exists_acts
  rw [hl] at hmem
  rcases List.mem_append.1 hmem with hmem | hmem
  · exact hnew _ hmem
  · -- else it was outstanding where nothing was
    obtain ⟨⟨path, data⟩, hc, hpath⟩ := Option.map_eq_some_iff.1 he
    obtain rfl : path = table.markerAt m.timestamp := hpath
    have hwrite : ⟨i, data⟩ ∈ History.writesAt (table.markerAt m.timestamp) P₀.history.acts :=
      History.mem_writesAt.2 ⟨_, hmem, rfl, Exchange.write?_of_creation? hc⟩
    have hfind := h₀.legal.find?_eq (table.markerAt m.timestamp)
    split at hfind
    · rename_i hnil
      rw [hnil] at hwrite
      cases hwrite
    · rename_i w₀ ws₀ hw₀
      obtain ⟨m₀, hdata, -, ho₀⟩ := hP.allOutstanding hs ho w₀ (by
        rw [hl, History.writesAt_append, hw₀]
        exact List.mem_append_right _ List.mem_cons_self)
      exact absurd ho₀ (hnone m₀ ⟨_, _, hdata ▸ hfind⟩)

/-- A call that has acted before another one and after it is of the other session. -/
theorem session_ne (h : Contends table session P₀ P) (h₀ : Reachable anyone P₀) {i i' : Nat}
    {e e' f : Exchange} {later x y before : List Act} (hi : P₀.tasks.length ≤ i)
    (hi' : P₀.tasks.length ≤ i') (hne : i ≠ i')
    (ha : P.history.acts = later ++ ⟨i', e'⟩ :: (x ++ ⟨i, e⟩ :: (y ++ ⟨i', f⟩ :: before))) :
    session i ≠ session i' := by
  intro hs
  have hlt : ∀ a ∈ P.history.acts, a.task < P.tasks.length := (h.reachable h₀).task_lt
  have hlast : i' < P.tasks.length := hlt ⟨i', e'⟩ (by simp [ha])
  have hmid : i < P.tasks.length := hlt ⟨i, e⟩ (by simp [ha])
  rcases Nat.lt_or_gt_of_ne hne with hlt | hlt
  · exact (h.one_at_a_time h₀ hi hlt hs hlast).2 (later ++ ⟨i', e'⟩ :: (x ++ ⟨i, e⟩ :: y)) f before
      (by simp [ha]) ⟨i, e⟩ (by simp) rfl
  · exact (h.one_at_a_time h₀ hi' hlt hs.symm hmid).2 (later ++ ⟨i', e'⟩ :: x) e
      (y ++ ⟨i', f⟩ :: before) (by simp [ha]) ⟨i', e'⟩ (by simp) rfl

/-- **Who requests a compaction has not seen another one that was requested before** and is
outstanding still, so it is of the other session. -/
theorem overtakes_of_created (h : Contends table session P₀ P) (h₀ : Reachable anyone P₀)
    {a a' : Act} {later before : List Act}
    (hall : AllOutstanding table m.timestamp P.history.acts)
    (ha : Created P₀ P table m.timestamp a) (ha' : Created P₀ P table m'.timestamp a')
    (hsplit : P.history.acts = later ++ a' :: before) (hmem : a ∈ before) :
    session a.task ≠ session a'.task ∧ P.Overtakes table session m m' := by
  have hP := h.reachable h₀
  obtain ⟨i, e⟩ := a
  obtain ⟨i', e'⟩ := a'
  obtain ⟨hacts, hi, he⟩ := ha
  obtain ⟨hacts', hi', he'⟩ := ha'
  obtain ⟨⟨path, data⟩, hc, hpath⟩ := Option.map_eq_some_iff.1 he
  obtain rfl : path = table.markerAt m.timestamp := hpath
  have hwrite := Exchange.write?_of_creation? hc
  -- the call of a coordinator has looked before it has created anything
  obtain ⟨task, htask⟩ := hP.exists_task (History.mem_own.2 hacts')
  obtain ⟨rfl, hop⟩ := h.isCoordinator htask hi'
  have hlooks := hP.looks_own htask hop
  rw [own, hsplit, History.own_append, History.own_cons_self] at hlooks
  obtain ⟨v, l, l', hown, hl, hnone⟩ := hlooks.looksBefore (by
    intro hn
    rw [hn] at he'
    cases he')
  rw [List.append_cons] at hsplit
  obtain ⟨after, found, earlier, rfl, hearlier, hafter⟩ :=
    hP.exists_listed hsplit hown hl hnone hall
  rw [← List.append_cons] at hsplit
  have hmem : (⟨i, e⟩ : Act) ∈ after := by
    rcases List.mem_append.1 hmem with hmem | hmem
    · exact hmem
    rcases List.mem_cons.1 hmem with heq | hmem
    · obtain ⟨-, rfl⟩ := Act.mk.inj heq
      cases hwrite
    · have hw : ⟨i, data⟩ ∈ History.writesAt (task.table.markerAt m.timestamp) earlier :=
        History.mem_writesAt.2 ⟨_, hmem, rfl, hwrite⟩
      rw [hearlier] at hw
      cases hw
  have hidle := hafter _ hmem
  obtain ⟨x, y, rfl⟩ := List.append_of_mem hmem
  rw [List.append_assoc, List.cons_append] at hsplit
  have hne : session i ≠ session i' := by
    refine h.session_ne h₀ hi hi' ?_ hsplit
    rintro rfl
    rw [hidle rfl] at hwrite
    cases hwrite
  refine ⟨hne, later, i', e', x, i, e, _, found, hne, hsplit, he, he', ?_⟩
  exact History.mem_own.2 (List.mem_append_right _ List.mem_cons_self)

/-- Of two that are outstanding, one overtakes the other. -/
theorem overtakes_or (h : Contends table session P₀ P) (h₀ : Reachable anyone P₀) {a a' : Act}
    (hs : P.Stores table m) (hs' : P.Stores table m') (ho : m.IsOutstanding)
    (ho' : m'.IsOutstanding) (hne : m ≠ m') (ha : Created P₀ P table m.timestamp a)
    (ha' : Created P₀ P table m'.timestamp a') :
    session a.task ≠ session a'.task ∧
      (P.Overtakes table session m m' ∨ P.Overtakes table session m' m) := by
  have hP := h.reachable h₀
  obtain ⟨later, before, hsplit⟩ := List.append_of_mem ha'.1
  have hmem := ha.1
  rw [hsplit, List.mem_append, List.mem_cons] at hmem
  rcases hmem with hmem | rfl | hmem
  · obtain ⟨x, y, rfl⟩ := List.append_of_mem hmem
    rw [List.append_assoc, List.cons_append] at hsplit
    have hover := h.overtakes_of_created h₀ (hP.allOutstanding hs' ho') ha' ha hsplit
      (List.mem_append_right _ List.mem_cons_self)
    exact ⟨hover.1.symm, .inr hover.2⟩
  · obtain ⟨-, ht⟩ := Table.markerAt_inj (Option.some.inj (ha.2.2.symm.trans ha'.2.2))
    exact absurd (hP.eq_of_stores hs hs' ht) hne
  · have hover := h.overtakes_of_created h₀ (hP.allOutstanding hs ho) ha ha' hsplit hmem
    exact ⟨hover.1, .inl hover.2⟩

end Contends

/-- **Two sessions come to two compactions at most,** and to two only if their calls overlap. -/
theorem contended (h₀ : Reachable anyone P₀) (hnone : ∀ m, P₀.Stores table m → ¬m.IsOutstanding)
    (h : Contends table session P₀ P) : P.Contended table session where
  two := by
    intro m₁ m₂ m₃ h₁ h₂ h₃ ho₁ ho₂ ho₃
    obtain ⟨a₁, ha₁⟩ := h.exists_created h₀ hnone h₁ ho₁
    obtain ⟨a₂, ha₂⟩ := h.exists_created h₀ hnone h₂ ho₂
    obtain ⟨a₃, ha₃⟩ := h.exists_created h₀ hnone h₃ ho₃
    by_contra hne
    obtain ⟨h12, h23, h13⟩ : m₁ ≠ m₂ ∧ m₂ ≠ m₃ ∧ m₁ ≠ m₃ := by
      simpa only [not_or] using hne
    -- three calls are not of two sessions
    have hs12 := (h.overtakes_or h₀ h₁ h₂ ho₁ ho₂ h12 ha₁ ha₂).1
    have hs23 := (h.overtakes_or h₀ h₂ h₃ ho₂ ho₃ h23 ha₂ ha₃).1
    have hs13 := (h.overtakes_or h₀ h₁ h₃ ho₁ ho₃ h13 ha₁ ha₃).1
    revert hs12 hs23 hs13
    cases session a₁.task <;> cases session a₂.task <;> cases session a₃.task <;> simp
  overtakes := by
    intro m m' hs hs' ho ho' hne
    obtain ⟨a, ha⟩ := h.exists_created h₀ hnone hs ho
    obtain ⟨a', ha'⟩ := h.exists_created h₀ hnone hs' ho'
    exact (h.overtakes_or h₀ hs hs' ho ho' hne ha ha').2

/-- Turns of the two sessions go on with what they contend for. -/
theorem Contends.turns (h : Contends table session P₀ P) {l : List Nat}
    (hl : ∀ i ∈ l, P₀.tasks.length ≤ i) : Contends table session P₀ (P.turns l) := by
  refine List.foldlRecOn l _ h fun P h i hi => ?_
  rcases P.turn_step i with hP | ⟨hs, e, ha⟩
  · rw [hP]
    exact h
  · exact h.step hs ha (hl i hi)

/-- One o'clock on the first day of 1970. -/
def oneOClock : Moment := ⟨3600, 0, by decide⟩

/-- A delta commit was requested an hour ago. -/
def dueCompaction : Pool :=
  (empty.begun .sample (.append (.requested ⟨"001"⟩ .deltaCommit) .empty
    (some ⟨0, 0, isMoment_zero⟩)) .empty).turn 0

/-- One session begins a cycle and looks; another one looks and schedules a compaction; then
the first goes on. -/
def contest : Pool :=
  ((dueCompaction.begun .sample (.run .standard oneOClock) .empty).begun .sample
    (.scheduleAt .standard ⟨"002"⟩ oneOClock) .empty).turns [1, 1, 2, 2, 2, 1]

/-- A delta commit may have been requested. -/
theorem reachable_dueCompaction : Reachable anyone dueCompaction :=
  .turn (.start .empty trivial) 0

/-- No compaction is outstanding at first. -/
theorem not_isOutstanding_dueCompaction (hm : dueCompaction.Stores .sample m) :
    ¬m.IsOutstanding := by
  obtain ⟨path, version, hf⟩ := hm
  have hobjects : dueCompaction.history.objects = Storage.Objects.empty.insert
      (Table.sample.markerAt ⟨"001"⟩) ⟨Marker.encode ⟨.requested ⟨"001"⟩ .deltaCommit, .empty,
        some ⟨0, 0, isMoment_zero⟩⟩, 1⟩ := by
    decide +kernel
  rw [hobjects, Storage.Objects.find?_insert] at hf
  split at hf
  · obtain rfl := Marker.encode_injective (Storage.Object.mk.inj (Option.some.inj hf)).1
    decide
  · cases hf

/-- Only the two sessions ask, and each of them makes one call. -/
theorem contends_contest : Contends .sample (· == 1) dueCompaction contest := by
  have hlength : dueCompaction.tasks.length = 1 := rfl
  have hfirst : Contends .sample (· == 1) dueCompaction
      (dueCompaction.begun .sample (.run .standard oneOClock) .empty) := by
    refine .call .start trivial ?_
    intro j task hj ht
    have hlt := (List.getElem?_eq_some_iff.1 ht).1
    omega
  have hsecond : Contends .sample (· == 1) dueCompaction
      ((dueCompaction.begun .sample (.run .standard oneOClock) .empty).begun .sample
        (.scheduleAt .standard ⟨"002"⟩ oneOClock) .empty) := by
    refine .call hfirst trivial ?_
    intro j task hj ht hs
    have hlt := (List.getElem?_eq_some_iff.1 ht).1
    rw [begun, List.length_append, List.length_singleton] at hlt
    obtain rfl : j = 1 := by omega
    cases hs
  refine hsecond.turns ?_
  rw [hlength]
  decide

/-- **Two sessions can each schedule a compaction,** and both are outstanding. -/
theorem not_single :
    ∃ P₀ P session m m', Reachable anyone P₀ ∧
      (∀ m, P₀.Stores .sample m → ¬m.IsOutstanding) ∧ Contends .sample session P₀ P ∧
      P.Stores .sample m ∧ m.IsOutstanding ∧ P.Stores .sample m' ∧ m'.IsOutstanding ∧ m ≠ m' := by
  refine ⟨dueCompaction, contest, _, ⟨.requested ⟨"002"⟩ .compaction, .plan .empty, oneOClock⟩,
    ⟨.requested ⟨"19700101010000000"⟩ .compaction, .plan .empty, oneOClock⟩,
    reachable_dueCompaction, fun m => not_isOutstanding_dueCompaction, contends_contest,
    ⟨Table.markerPath "002", 1, ?_⟩, by decide,
    ⟨Table.markerPath "19700101010000000", 1, ?_⟩, by decide, by decide⟩
  · decide +kernel
  · decide +kernel

/-- What comes of the two sessions that have each scheduled a compaction. -/
theorem contended_of_contest :
    ∃ P₀ P session, Reachable anyone P₀ ∧ (∀ m, P₀.Stores .sample m → ¬m.IsOutstanding) ∧
      Contends .sample session P₀ P ∧ P.Contended .sample session :=
  ⟨_, _, _, reachable_dueCompaction, fun _ => not_isOutstanding_dueCompaction, contends_contest,
    contended reachable_dueCompaction (fun _ => not_isOutstanding_dueCompaction)
      contends_contest⟩

end Pool
end CommitTimeline
