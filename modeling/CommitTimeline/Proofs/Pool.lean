/-
# Calls that overlap

A pool is any number of calls under way on one storage, each a task that has come so
far: begun with some view, and waiting for an answer or done. One step is one request
of one task with its answer, so the requests of several calls interleave in every
order, and a task may stop anywhere. Reports are not steps: a call that has only
reports left is done.

What holds of each call followed alone holds of each task of a pool, whatever was stored
at first (`Pool.ReachableFrom.conforms`). The history of a pool is legal if nothing was
(`Pool.Reachable.legal`).
-/

import CommitTimeline.DeltaCommit
import CommitTimeline.Proofs.History

namespace CommitTimeline

/-- What a call gives. -/
inductive Reply where
  | nothing
  | instant (i : Instant)
  /-- The compaction that was completed or scheduled, if one was. -/
  | compaction (i : Option Instant)
  | cycle (o : Outcome)
  | deltaCommit (d : DeltaCommit)
  deriving DecidableEq

/-- What can be called on a table. -/
inductive Operation where
  | refresh
  | append (instant : Instant) (details : Details) (requestedAt : Option Moment)
  | transition (instant : Instant) (target : State) (details : Option Details)
  | run (config : Config) (now : Moment)
  | retryPending
  | scheduleAt (config : Config) (timestamp : Timestamp) (now : Moment)
  | createAt (config : Config) (timestamp : Timestamp) (batch : Batch) (now : Moment)
  | start (config : Config) (batch : Batch) (now : Moment)
  deriving DecidableEq

/-- The call of an operation. -/
def Operation.call (table : Table) : Operation → Call Reply
  | refresh => do
    Session.refresh table
    return .nothing
  | append instant details requestedAt => do
    return .instant (← Session.append table instant details requestedAt)
  | transition instant target details => do
    return .instant (← Session.transition table instant target details)
  | run config now => do
    return .cycle (← Compaction.run table config now)
  | retryPending => do
    return .compaction (← Compaction.retryPending table)
  | scheduleAt config timestamp now => do
    return .compaction (← Compaction.scheduleAt table config timestamp now)
  | createAt config timestamp batch now => do
    return .deltaCommit (← DeltaCommit.createAt table config timestamp batch now)
  | start config batch now => do
    return .deltaCommit (← DeltaCommit.start table config batch now)

/-- A call under way. -/
structure Task where
  table : Table
  operation : Operation
  rest : Program (Except Error Reply × Timeline)

namespace Task

/-- A call that begins with a view. -/
def start (table : Table) (operation : Operation) (view : Timeline) : Task :=
  ⟨table, operation, ((operation.call table).program view).quiet⟩

/-- What has come of the call, with the view it leaves, if it has returned. -/
def result? (t : Task) : Option (Except Error Reply × Timeline) :=
  match t.rest with
  | .done r => some r
  | .ask _ _ => none

/-- The call has given a reply. -/
def Gave (t : Task) (r : Reply) : Prop :=
  ∃ view, t.result? = some (.ok r, view)

/-- The call has returned without an error. -/
def Succeeded (t : Task) : Prop :=
  ∃ r, t.Gave r

/-- What is left of the task is safe after what it has asked and been answered, and if it is not
done it waits for an answer. -/
def IsSafe (t : Task) (waits : List Exchange → Prop)
    (post : Except Error Reply × Timeline → List Exchange → Prop) (own : List Exchange) : Prop :=
  t.rest.Safe Alone waits post own ∧
    ∃ p : Program (Except Error Reply × Timeline), t.rest = p.quiet

variable {waits : List Exchange → Prop} {own : List Exchange}
  {post : Except Error Reply × Timeline → List Exchange → Prop}

/-- A safe call begins as a safe task. -/
theorem isSafe_start {table : Table} {op : Operation} {view : Timeline}
    (h : ((op.call table).program view).Safe Alone waits post own) :
    (start table op view).IsSafe waits post own :=
  ⟨h.quiet, _, rfl⟩

/-- A task that has a result has nothing left to do. -/
theorem rest_of_result? {t : Task} {r : Except Error Reply × Timeline}
    (h : t.result? = some r) : t.rest = .done r := by
  unfold result? at h
  split at h
  · rename_i hrest
    rw [hrest, Option.some.inj h]
  · cases h

/-- What a safe task promises of its result holds once it has one. -/
theorem IsSafe.of_result {t : Task} {r : Except Error Reply × Timeline}
    (h : t.IsSafe waits post own) (hr : t.result? = some r) : post r own := by
  obtain ⟨hsafe, -⟩ := h
  rw [rest_of_result? hr] at hsafe
  cases hsafe with
  | done hpost => exact hpost

end Task

/-- Calls under way on one storage; a task goes by its position. -/
structure Pool where
  history : History
  tasks : List Task

namespace Pool

/-- Nothing was called, and some objects are stored. -/
def on (base : Storage.Objects) : Pool := ⟨⟨[], base⟩, []⟩

/-- Nothing is stored, and nothing was called. -/
def empty : Pool := ⟨.empty, []⟩

/-- One task asks and is answered. -/
inductive Step : Pool → Pool → Prop where
  | mk {h h' : History} {tasks : List Task} {i : Nat} {task : Task} {r : Request}
      {next : r.Answer → Program (Except Error Reply × Timeline)} {x : r.Answer}
      (hi : tasks[i]? = some task) (hr : task.rest = .ask r next)
      (hs : History.Step i h ⟨r, x⟩ h') :
      Step ⟨h, tasks⟩ ⟨h', tasks.set i { task with rest := (next x).quiet }⟩

/-- What a pool can come to on a storage with some objects, if calls may begin where `admits`
says. -/
inductive ReachableFrom (base : Storage.Objects)
    (admits : Pool → Table → Operation → Timeline → Prop) : Pool → Prop where
  | empty : ReachableFrom base admits (on base)
  | start {P : Pool} {table : Table} {operation : Operation} {view : Timeline}
      (h : ReachableFrom base admits P) (ha : admits P table operation view) :
      ReachableFrom base admits ⟨P.history, P.tasks ++ [.start table operation view]⟩
  | step {P P' : Pool} (h : ReachableFrom base admits P) (hs : Step P P') :
      ReachableFrom base admits P'

/-- What a pool can come to on a storage that was empty at first. -/
abbrev Reachable (admits : Pool → Table → Operation → Timeline → Prop) : Pool → Prop :=
  ReachableFrom .empty admits

/-- A task of a pool in which one more call has begun was there before, or is the new one. -/
theorem getElem?_started {tasks : List Task} {started task : Task} {i : Nat}
    (hi : (tasks ++ [started])[i]? = some task) :
    tasks[i]? = some task ∨ i = tasks.length ∧ task = started := by
  rw [List.getElem?_append] at hi
  split at hi
  · exact .inl hi
  · rename_i hlt
    rw [List.getElem?_singleton] at hi
    split at hi
    · exact .inr ⟨by omega, (Option.some.inj hi).symm⟩
    · cases hi

/-- What a task has asked and been answered, the latest first. -/
def own (P : Pool) (i : Nat) : List Exchange :=
  History.own i P.history.acts

/-- A step adds one act. -/
theorem Step.acts {P P' : Pool} (hs : P.Step P') : ∃ a, P'.history.acts = a :: P.history.acts := by
  obtain ⟨-, -, hs⟩ := hs
  cases hs
  exact ⟨_, rfl⟩

/-- No task goes away. -/
theorem Step.exists_task {P P' : Pool} (hs : P.Step P') {i : Nat} {task : Task}
    (hi : P.tasks[i]? = some task) : ∃ task', P'.tasks[i]? = some task' := by
  obtain @⟨_, _, tasks, j, asking, _, next, x, -, -, -⟩ := hs
  refine ⟨_, List.getElem?_eq_getElem ?_⟩
  show i < (tasks.set j _).length
  rw [List.length_set]
  exact (List.getElem?_eq_some_iff.1 hi).1

/-- **A step keeps what is safe of each task:** the task that asks goes on with the answer, and the
others are where they were. -/
theorem Step.keeps {P P' : Pool} (hs : P.Step P') {j : Nat} {task' : Task}
    (hj : P'.tasks[j]? = some task') :
    ∃ task, P.tasks[j]? = some task ∧ task'.table = task.table ∧
      task'.operation = task.operation ∧ ∀ {waits post},
        task.IsSafe waits post (P.own j) → task'.IsSafe waits post (P'.own j) := by
  obtain ⟨hi, hr, hs⟩ := hs
  cases hs
  rw [List.getElem?_set] at hj
  split at hj
  · rename_i hij
    subst hij
    split at hj
    · obtain rfl := Option.some.inj hj
      refine ⟨_, hi, rfl, rfl, ?_⟩
      rintro waits post ⟨hsafe, p, hp⟩
      rw [hr] at hsafe hp
      refine ⟨?_, _, rfl⟩
      refine Program.Safe.quiet ((hsafe.answered (Program.isReport_of_quiet hp.symm)).2 _ _ ?_)
      exact History.own_cons_self
    · cases hj
  · rename_i hij
    refine ⟨task', hj, rfl, rfl, ?_⟩
    rintro waits post ⟨hsafe, hp⟩
    refine ⟨?_, hp⟩
    rw [own, History.own_cons_of_ne hij]
    exact hsafe

/-- What comes about on a storage that was empty at first is a legal history. -/
theorem Reachable.legal {admits : Pool → Table → Operation → Timeline → Prop} {P : Pool}
    (h : Reachable admits P) : P.history.Legal := by
  induction h with
  | empty => exact .empty
  | start _ _ ih => exact ih
  | step _ hs ih =>
    obtain ⟨-, -, hs⟩ := hs
    exact .step ih hs

namespace ReachableFrom

variable {admits admits' : Pool → Table → Operation → Timeline → Prop} {base : Storage.Objects}
  {P : Pool}

/-- What is reachable stays so if more calls may begin. -/
theorem mono (h : ReachableFrom base admits P)
    (himp : ∀ {P table op v}, admits P table op v → admits' P table op v) :
    ReachableFrom base admits' P := by
  induction h with
  | empty => exact .empty
  | start _ ha ih => exact .start ih (himp ha)
  | step _ hs ih => exact .step ih hs

/-- Every act is one of a task. -/
theorem task_lt (h : ReachableFrom base admits P) :
    ∀ a ∈ P.history.acts, a.task < P.tasks.length := by
  induction h with
  | empty =>
    intro a ha
    cases ha
  | start _ _ ih =>
    intro a ha
    rw [List.length_append]
    exact Nat.lt_add_right _ (ih a ha)
  | step _ hs ih =>
    obtain ⟨hi, -, hs⟩ := hs
    cases hs
    intro a ha
    rw [List.length_set]
    rcases List.mem_cons.1 ha with rfl | ha
    · exact (List.getElem?_eq_some_iff.1 hi).1
    · exact ih a ha

/-- Whoever made an exchange is one of the tasks. -/
theorem exists_task (h : ReachableFrom base admits P) {i : Nat} {e : Exchange} (he : e ∈ P.own i) :
    ∃ task, P.tasks[i]? = some task :=
  ⟨_, List.getElem?_eq_getElem (h.task_lt _ (History.mem_own.1 he))⟩

/-- A task that has not been spawned yet has made no exchange. -/
theorem own_length (h : ReachableFrom base admits P) : P.own P.tasks.length = [] := by
  rw [List.eq_nil_iff_forall_not_mem]
  intro e he
  exact Nat.lt_irrefl _ (h.task_lt _ (History.mem_own.1 he))

variable {waits : Table → Operation → List Exchange → Prop}
  {fails : Table → Operation → Error → List Exchange → Prop}
  {gives : Table → Operation → Reply → Timeline → List Exchange → Prop}

/-- What is left of a task is safe after what it has asked and been answered. -/
theorem safe (h : ReachableFrom base admits P)
    (spec : ∀ {P table op v}, admits P table op v →
      (op.call table).Safe Alone (waits table op) (fails table op) (gives table op) v []) :
    ∀ (i : Nat) (task : Task), P.tasks[i]? = some task →
      task.IsSafe (waits task.table task.operation)
        (Call.Ends (fails task.table task.operation) (gives task.table task.operation))
        (P.own i) := by
  induction h with
  | empty =>
    intro i task hi
    cases hi
  | @start P table op v h ha ih =>
    intro i task hi
    rcases getElem?_started hi with hi | ⟨rfl, rfl⟩
    · exact ih i task hi
    · refine Task.isSafe_start ?_
      show ((op.call table).program v).Safe Alone _ _ (P.own P.tasks.length)
      rw [h.own_length]
      exact spec ha
  | step h hs ih =>
    intro j task' hj
    obtain ⟨task, hi, htable, hop, hkeeps⟩ := hs.keeps hj
    rw [htable, hop]
    exact hkeeps (ih j task hi)

/-- **Each task does what its call does alone,** however the tasks interleave. -/
theorem conforms (h : ReachableFrom base admits P)
    (spec : ∀ {P table op v}, admits P table op v →
      (op.call table).Safe Alone (waits table op) (fails table op) (gives table op) v [])
    {i : Nat} {task : Task} (hi : P.tasks[i]? = some task) :
    match task.result? with
    | none => waits task.table task.operation (P.own i)
    | some r => Call.Ends (fails task.table task.operation) (gives task.table task.operation) r
        (P.own i) := by
  obtain ⟨hsafe, p, hp⟩ := h.safe spec i task hi
  split
  · rename_i hr
    cases hrest : task.rest with
    | done r =>
      rw [Task.result?, hrest] at hr
      cases hr
    | ask r next =>
      rw [hrest] at hsafe hp
      exact (hsafe.answered (Program.isReport_of_quiet hp.symm)).1
  · rename_i r hr
    exact Task.IsSafe.of_result ⟨hsafe, p, hp⟩ hr

end ReachableFrom
end Pool
end CommitTimeline
