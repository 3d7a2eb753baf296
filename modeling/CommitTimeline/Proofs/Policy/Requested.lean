/-
# The time of a request is never lost

A call that appends an instant gives it the time at which it was requested, and every later step
takes this time from the marker that it has read. So, whatever sessions call, however their calls
overlap and wherever they fail, an entry of a view has the time of the one call that has created
its marker (`Pool.Reachable.exists_request`): everything in a view was there when the call began, or
was read or written by it (`Session.Traces`), and the markers that were written for one timestamp
all have the time of the first of them (`Pool.Reachable.pairwise_growsInto`).

Hence time can be told of every timeline that is not empty, also where no timestamp denotes a
moment (`Pool.times_are_kept`).
-/

import CommitTimeline.Proofs.Policy
import CommitTimeline.Proofs.Program.Preserves
import CommitTimeline.Proofs.Session.Views

namespace CommitTimeline

/-- What was created was put where nothing was. -/
theorem Exchange.exists_of_creation? {e : Exchange} {path : String} {data : Bytes}
    (h : e.creation? = some (path, data)) : ∃ version, e = .stored path data .absent version := by
  unfold creation? at h
  split at h
  · rename_i version
    obtain ⟨rfl, rfl⟩ := Prod.mk.inj (Option.some.inj h)
    exact ⟨version, rfl⟩
  · cases h

/-- Between two moments lies a duration, unless the second one is later. -/
theorem Duration.ofNanoseconds?_since_eq_none {now m : Moment} :
    ofNanoseconds? (now.since m) = none ↔ now.since m < 0 := by
  have hlt := now.since_lt m
  constructor
  · intro h
    by_contra hneg
    have hd : ofNanoseconds? (now.since m) = some ⟨(now.since m).toNat, by omega⟩ :=
      ofNanoseconds?_eq_some.2 (Int.toNat_of_nonneg (by omega))
    rw [h] at hd
    cases hd
  · intro hneg
    rw [Option.eq_none_iff_forall_ne_some]
    intro d hd
    have hn := ofNanoseconds?_eq_some.1 hd
    omega

namespace Timeline

variable {t : Timeline} {now : Moment}

/-- In a timeline with entries there is a reference, and it is one of them. -/
theorem exists_reference? (hne : t.entries ≠ []) :
    ∃ e ∈ t.entries, t.reference? = some e.instant := by
  cases hr : t.reference? with
  | none =>
    obtain ⟨-, hfirst⟩ := Option.or_eq_none_iff.1 hr
    obtain ⟨e, he⟩ := List.exists_mem_of_ne_nil _ hne
    exact absurd rfl (List.find?_eq_none.1 hfirst e.instant (List.mem_map_of_mem he))
  | some i =>
    obtain ⟨e, he, rfl⟩ := exists_of_reference? hr
    exact ⟨e, he.1, rfl⟩

/-- **Where every entry has a time of request, time can be told,** unless the reference lies in
the future. -/
theorem elapsed?_eq_none_iff (hne : t.entries ≠ []) (hr : ∀ e ∈ t.entries, e.requestedAt ≠ none) :
    t.elapsed? now = none ↔
      ∃ i m, t.reference? = some i ∧ t.moment? i.timestamp = some m ∧ now.since m < 0 := by
  obtain ⟨e, he, hreference⟩ := exists_reference? hne
  obtain ⟨x, hx⟩ := exists_find? he
  obtain ⟨m, hm⟩ : ∃ m, t.moment? e.timestamp = some m := by
    obtain ⟨requestedAt, hrequested⟩ := Option.ne_none_iff_exists'.1 (hr x (mem_of_find? hx).1)
    rw [moment?, requestedAt?, hx, Option.bind_some, hrequested]
    cases e.timestamp.moment? with
    | none => exact ⟨requestedAt, rfl⟩
    | some m => exact ⟨m, rfl⟩
  have helapsed : t.elapsed? now = Duration.ofNanoseconds? (now.since m) := by
    have hbind : t.elapsed? now = t.reference?.bind fun reference =>
        (t.moment? reference.timestamp).bind fun m => Duration.ofNanoseconds? (now.since m) := rfl
    rw [hbind, hreference, Option.bind_some]
    exact congrArg (Option.bind · _) hm
  rw [helapsed, Duration.ofNanoseconds?_since_eq_none]
  constructor
  · exact fun hneg => ⟨e.instant, m, hreference, hm, hneg⟩
  · rintro ⟨i, m', hi, hm', hneg⟩
    obtain rfl := Option.some.inj (hreference.symm.trans hi)
    obtain rfl := Option.some.inj (hm.symm.trans hm')
    exact hneg

end Timeline

namespace Session

/-- What was created are markers of the table that have the time of the request. -/
def Dated (table : Table) (clock : Option (Option Moment)) (own : List Exchange) : Prop :=
  ∀ e ∈ own, ∀ path data, e.creation? = some (path, data) →
    ∃ m : Marker, path = table.markerAt m.timestamp ∧ data = m.encode ∧ clock = some m.requestedAt

variable {table : Table} {clock : Option (Option Moment)} {own l : List Exchange} {e : Exchange}
  {v₀ v : Timeline}

/-- Where nothing was created, all is dated. -/
theorem dated_nil : Dated table clock [] := by
  intro e he
  cases he

/-- Exchanges that create nothing leave all dated. -/
theorem Dated.append (h : Dated table clock own) (hl : ∀ e ∈ l, e.creation? = none) :
    Dated table clock (l ++ own) := by
  intro e he path data hc
  rcases List.mem_append.1 he with he | he
  · rw [hl e he] at hc
    cases hc
  · exact h e he path data hc

/-- An exchange that creates nothing leaves all dated. -/
theorem Dated.cons (h : Dated table clock own) (he : e.creation? = none) :
    Dated table clock (e :: own) :=
  h.append (List.forall_mem_singleton.2 he)

/-- Exchanges that write nothing leave all dated. -/
theorem Dated.append_idle (h : Dated table clock own) (hl : Idle l) :
    Dated table clock (l ++ own) :=
  h.append fun e he => Exchange.creation?_of_idle (hl e he).1

/-- What was created is dated, and what is in the view was there at first, or was read or written
since. -/
structure Traces (table : Table) (clock : Option (Option Moment)) (v₀ v : Timeline)
    (own : List Exchange) : Prop where
  dated : Dated table clock own
  known : ∀ e ∈ v.entries, e ∈ v₀.entries ∨ Compaction.Known table own e

/-- A call that begins has in its view what it began with. -/
theorem traces_self (v : Timeline) : Traces table clock v v [] where
  dated := dated_nil
  known := fun _ he => .inl he

/-- More exchanges, and nothing new in the view. -/
theorem Traces.append (h : Traces table clock v₀ v own) (hl : Dated table clock (l ++ own)) :
    Traces table clock v₀ v (l ++ own) where
  dated := hl
  known := fun e he => (h.known e he).imp_right fun hk => hk.mono (List.subset_append_right l own)

/-- A marker that has been written is put into the view. -/
theorem Traces.upsert {m : Marker} {condition : Storage.Precondition} {version : String}
    (h : Traces table clock v₀ v own)
    (hm : .stored (table.markerAt m.timestamp) m.encode condition version ∈ own) :
    Traces table clock v₀ (v.upsert m) own where
  dated := h.dated
  known := by
    intro e he
    rcases Timeline.mem_of_mem_upsert he with rfl | he
    · exact .inr (.inr ⟨condition, version, hm⟩)
    · exact h.known e he

/-- **Every step keeps the times of the requests.** -/
theorem maintains_traces (table : Table) (clock : Option (Option Moment)) (v₀ : Timeline) :
    Maintains table clock (Traces table clock v₀) where
  idle := fun hl h => h.append (h.dated.append_idle hl)
  loads := fun h hl =>
    ⟨h.dated.append_idle hl.1, fun e he => .inr (Compaction.Knows.of_loads hl e he)⟩
  creates := by
    rintro v own m _ h hclock ⟨version, rfl⟩
    refine (h.append ?_).upsert List.mem_cons_self
    intro f hf path data hc
    rcases List.mem_cons.1 hf with rfl | hf
    · obtain ⟨rfl, rfl⟩ := Prod.mk.inj (Option.some.inj hc)
      exact ⟨m, rfl, rfl, hclock⟩
    · exact h.dated f hf path data hc
  moves := by
    intro v own instant target details current m l h hl
    obtain ⟨known, data, version, -, rfl⟩ := hl.exchanges
    have hstored : ∀ l : List Exchange,
        .stored (table.markerAt m.timestamp) m.encode (.version known.version) version ∈
          .stored (table.markerAt instant.timestamp) m.encode (.version known.version) version ::
            l :=
      fun l => hl.timestamp ▸ List.mem_cons_self
    exact (h.append (((h.dated.cons rfl).cons rfl).cons rfl)).upsert (hstored _)
  ingest := fun x h => h.append (l := [_]) (h.dated.cons rfl)
  merge := fun x h => h.append (l := [_]) (h.dated.cons rfl)

end Session

/-- What the call appends has a time of request. -/
def Operation.IsTimed (op : Operation) : Prop :=
  op.clock? ≠ some none

/-- Every entry has been written to its place. -/
def Timeline.IsWrittenIn (v : Timeline) (table : Table) (acts : List Act) : Prop :=
  ∀ e ∈ v.entries, ∃ w ∈ History.writesAt (table.markerAt e.timestamp) acts, w.data = e.encode

/-- What was written stays so. -/
theorem Timeline.IsWrittenIn.mono {v : Timeline} {table : Table} {acts : List Act}
    (h : v.IsWrittenIn table acts) (later : List Act) : v.IsWrittenIn table (later ++ acts) := by
  intro e he
  obtain ⟨w, hw, hd⟩ := h e he
  exact ⟨w, History.writesAt_append ▸ List.mem_append_right _ hw, hd⟩

/-- What was asked for has failed. -/
def Exchange.IsFailure : Exchange → Prop
  | ⟨.storage _, .error _⟩ | ⟨.ingest .., .error _⟩ | ⟨.merge .., .error _⟩ => True
  | _ => False

/-- From a failure nothing is known. -/
theorem Compaction.Known.of_failure {table : Table} {x : Exchange} {own : List Exchange}
    {m : Marker} (h : Known table (x :: own) m) (hx : x.IsFailure) : Known table own m := by
  rcases h with ⟨path, data, hr, hd⟩ | ⟨condition, version, hw⟩
  · rcases List.mem_cons.1 hr with rfl | hr
    · exact hx.elim
    · exact .inl ⟨path, data, hr, hd⟩
  · rcases List.mem_cons.1 hw with rfl | hw
    · exact hx.elim
    · exact .inr ⟨condition, version, hw⟩

/-- The session of the task has the view: the call has left it, or while the call waits for an
answer, would leave it if the answer was a failure. -/
def Task.Shows (task : Task) (v : Timeline) : Prop :=
  (∃ r, task.result? = some (r, v)) ∨
    ∃ (r : Request) (next : r.Answer → Program (Except Error Reply × Timeline)) (x : r.Answer)
      (reply : Except Error Reply), task.rest = .ask r next ∧ Exchange.IsFailure ⟨r, x⟩ ∧
        (next x).quiet = .done (reply, v)

namespace Pool

/-- A session on the table has the view. -/
def Shows (P : Pool) (table : Table) (v : Timeline) : Prop :=
  ∃ (i : Nat) (task : Task), P.tasks[i]? = some task ∧ task.table = table ∧ task.Shows v

/-- Sessions make regular calls, each on the view that a session of the table has, or on an empty
one if there was no call; what they append has a time of request. -/
def timed (P : Pool) (table : Table) (op : Operation) (v : Timeline) : Prop :=
  op.IsRegular ∧ op.IsTimed ∧ (v = .empty ∨ P.Shows table v)

/-- The task has created the marker of the timestamp. -/
def Appends (P : Pool) (i : Nat) (table : Table) (t : Timestamp) : Prop :=
  ∃ e ∈ P.own i, e.creation?.map (·.1) = some (table.markerAt t)

/-- A task traces what it has in its view to what was written when it began and to what it has
read and written. -/
def Follows (P : Pool) (i : Nat) (task : Task) : Prop :=
  ∃ v₀ : Timeline, v₀.IsWrittenIn task.table P.history.acts ∧ task.operation.IsTimed ∧
    task.IsSafe
      (fun own => ∃ v, Session.Traces task.table task.operation.clock? v₀ v own)
      (fun r own => Session.Traces task.table task.operation.clock? v₀ r.2 own) (P.own i)

variable {P : Pool} {table : Table} {i : Nat} {task : Task} {v : Timeline} {e : Entry}
  {t : Timestamp} {now : Moment}

namespace Reachable

/-- What a task has read or written was written to its place. -/
theorem written_of_known (h : Reachable anyone P) {m : Marker}
    (hk : Compaction.Known table (P.own i) m) :
    ∃ w ∈ History.writesAt (table.markerAt m.timestamp) P.history.acts, w.data = m.encode := by
  rcases hk with ⟨path, data, hr, hd⟩ | ⟨condition, version, hw⟩
  · exact (h.written_of_read hr hd).2
  · exact ⟨⟨i, m.encode⟩, History.mem_writesAt.2 ⟨_, History.mem_own.1 hw, rfl, rfl⟩, rfl⟩

/-- What is in the view of a session was written. -/
theorem isWrittenIn_of_shows (h : Reachable anyone P) (hf : P.Follows i task)
    (hs : task.Shows v) : v.IsWrittenIn task.table P.history.acts := by
  obtain ⟨v₀, hv₀, -, hsafe⟩ := hf
  have hknown : ∀ e ∈ v.entries, e ∈ v₀.entries ∨ Compaction.Known task.table (P.own i) e := by
    rcases hs with ⟨r, hr⟩ | ⟨r, next, x, reply, hrest, hfailure, hdone⟩
    · exact (hsafe.of_result hr).known
    · obtain ⟨hsafe, p, hp⟩ := hsafe
      rw [hrest] at hsafe hp
      have hnext := ((hsafe.answered (Program.isReport_of_quiet hp.symm)).2 x _ rfl).quiet
      rw [hdone] at hnext
      cases hnext with
      | done htraces =>
        exact fun e he => (htraces.known e he).imp_right fun hk => hk.of_failure hfailure
  intro e he
  rcases hknown e he with he | hk
  · exact hv₀ e he
  · exact h.written_of_known hk

/-- **Every task traces what it has in its view.** -/
theorem follows (h : Reachable timed P) :
    ∀ (i : Nat) (task : Task), P.tasks[i]? = some task → P.Follows i task := by
  induction h with
  | empty =>
    intro i task hi
    cases hi
  | @start P table op v h ha ih =>
    intro i task hi
    rcases getElem?_started hi with hi | ⟨rfl, rfl⟩
    · exact ih i task hi
    · obtain ⟨-, htimed, hv⟩ := ha
      have hwritten : v.IsWrittenIn table P.history.acts := by
        rcases hv with rfl | ⟨j, task, hj, rfl, hs⟩
        · intro e he
          cases he
        · have hany : Reachable anyone P := h.mono fun _ => trivial
          exact hany.isWrittenIn_of_shows (ih j task hj) hs
      refine ⟨v, hwritten, htimed, Task.isSafe_start ?_⟩
      show ((op.call table).program v).Safe Alone _ _ (P.own P.tasks.length)
      rw [h.own_length]
      exact (Session.maintains_traces table op.clock? v).call v [] (Session.traces_self v)
  | step h hs ih =>
    intro j task' hj
    obtain ⟨task, hi, htable, hop, hkeeps⟩ := hs.keeps hj
    obtain ⟨v₀, hv₀, htimed, hsafe⟩ := ih j task hi
    -- what was written when the task began is written still
    obtain ⟨a, ha⟩ := hs.acts
    rw [Follows, htable, hop, ha]
    exact ⟨v₀, hv₀.mono [a], htimed, hkeeps hsafe⟩

/-- What a task has created is dated. -/
theorem dated_own (h : Reachable timed P) (hi : P.tasks[i]? = some task) :
    task.operation.IsTimed ∧ Session.Dated task.table task.operation.clock? (P.own i) := by
  obtain ⟨v₀, -, htimed, hsafe, -⟩ := h.follows i task hi
  obtain ⟨v, hv⟩ := hsafe.holds_of_quiet fun r own hr => ⟨r.2, hr⟩
  exact ⟨htimed, hv.dated⟩

/-- Where a marker is created, none was created before. -/
theorem not_creation_before {later before : List Act} {x : Exchange} {path : String}
    (h : Reachable anyone P) (ha : P.history.acts = later ++ ⟨i, x⟩ :: before)
    (hx : x.creation?.map (·.1) = some path) :
    ∀ a ∈ before, a.exchange.creation?.map (·.1) ≠ some path := by
  intro a hmem hc
  obtain ⟨⟨_, data⟩, hcreation, rfl⟩ := Option.map_eq_some_iff.1 hx
  obtain ⟨version, rfl⟩ := Exchange.exists_of_creation? hcreation
  obtain ⟨⟨_, data'⟩, hcreation', rfl⟩ := Option.map_eq_some_iff.1 hc
  have hnil := (h.legal_acts ha).put_absent
  have hwrite : ⟨a.task, data'⟩ ∈ History.writesAt _ before :=
    History.mem_writesAt.2 ⟨a, hmem, rfl, Exchange.write?_of_creation? hcreation'⟩
  rw [hnil] at hwrite
  cases hwrite

/-- One task creates a marker. -/
theorem eq_of_appends {j : Nat} (h : Reachable anyone P) (hi : P.Appends i table t)
    (hj : P.Appends j table t) : j = i := by
  obtain ⟨x, hx, hcx⟩ := hi
  obtain ⟨y, hy, hcy⟩ := hj
  obtain ⟨later, before, ha⟩ := List.append_of_mem (History.mem_own.1 hx)
  have hmem := History.mem_own.1 hy
  rw [ha] at hmem
  rcases List.mem_append.1 hmem with hmem | hmem
  · obtain ⟨l, l', rfl⟩ := List.append_of_mem hmem
    rw [List.append_assoc, List.cons_append] at ha
    exact absurd hcx (h.not_creation_before ha hcy _
      (List.mem_append_right l' List.mem_cons_self))
  · rcases List.mem_cons.1 hmem with heq | hmem
    · exact congrArg Act.task heq
    · exact absurd hcy (h.not_creation_before ha hcx _ hmem)

/-- All markers that were written for one timestamp have one time of request. -/
theorem requestedAt_eq {m m' : Marker} (h : Reachable anyone P)
    (hm : ∃ w ∈ History.writesAt (table.markerAt t) P.history.acts, w.data = m.encode)
    (hm' : ∃ w ∈ History.writesAt (table.markerAt t) P.history.acts, w.data = m'.encode) :
    m.requestedAt = m'.requestedAt := by
  -- of two writes either may be the first, so the relation has to be a symmetric one
  let R : Write → Write → Prop := fun w w' =>
    ∀ m m' : Marker, w.data = m.encode → w'.data = m'.encode → m.requestedAt = m'.requestedAt
  have hpairs : (History.writesAt (table.markerAt t) P.history.acts).Pairwise R :=
    (h.pairwise_growsInto table t).imp fun hg m m' hm hm' => (hg m m' hm hm').requestedAt
  have hsymm : Std.Symm R := ⟨fun _ _ hR m m' hm hm' => (hR m' m hm' hm).symm⟩
  have hrefl : ∀ w ∈ History.writesAt (table.markerAt t) P.history.acts, R w w := by
    intro w _ m m' hm hm'
    exact congrArg Marker.requestedAt (Marker.encode_injective (hm.symm.trans hm'))
  obtain ⟨w, hw, hd⟩ := hm
  obtain ⟨w', hw', hd'⟩ := hm'
  exact hpairs.forall_of_forall hrefl hw hw' m m' hd hd'

/-- **What is in a view has the time of the request** of the one task that created its marker. -/
theorem exists_request (h : Reachable timed P) (hv : v.IsWrittenIn table P.history.acts)
    (he : e ∈ v.entries) :
    ∃ (i : Nat) (task : Task) (now : Moment), P.tasks[i]? = some task ∧ task.table = table ∧
      task.operation.clock? = some (some now) ∧ e.requestedAt = some now ∧
      ∀ j, P.Appends j table e.timestamp ↔ j = i := by
  have hany : Reachable anyone P := h.mono fun _ => trivial
  obtain ⟨w, hw, hd⟩ := hv e he
  obtain ⟨later, i, x, before, ha, hx⟩ := hany.exists_creation (List.ne_nil_of_mem hw)
  have hown : x ∈ P.own i := History.mem_own.2 (ha ▸ List.mem_append_right _ List.mem_cons_self)
  have hcreated : P.Appends i table e.timestamp := ⟨x, hown, hx⟩
  obtain ⟨task, hi⟩ := h.exists_task hown
  obtain ⟨htimed, hdated⟩ := h.dated_own hi
  obtain ⟨⟨_, data⟩, hc, rfl⟩ := Option.map_eq_some_iff.1 hx
  obtain ⟨m, hpath, rfl, hclock⟩ := hdated x hown _ _ hc
  obtain ⟨rfl, ht⟩ := Table.markerAt_inj hpath
  have hwrite : ⟨i, m.encode⟩ ∈
      History.writesAt (task.table.markerAt e.timestamp) P.history.acts :=
    History.mem_writesAt.2 ⟨_, History.mem_own.1 hown, rfl, Exchange.write?_of_creation? hc⟩
  have hrequested : e.requestedAt = m.requestedAt :=
    hany.requestedAt_eq ⟨w, hw, hd⟩ ⟨_, hwrite, rfl⟩
  cases hnow : m.requestedAt with
  | none => exact absurd (hclock.trans (congrArg some hnow)) htimed
  | some now =>
    refine ⟨i, task, now, hi, rfl, hclock.trans (congrArg some hnow), hrequested.trans hnow, ?_⟩
    intro j
    constructor
    · exact fun hj => hany.eq_of_appends hcreated hj
    · rintro rfl
      exact hcreated

/-- What is stored of a table are the markers of a timeline. -/
theorem exists_isStoredIn (h : Reachable regular P) (table : Table) :
    ∃ t : Timeline, t.IsStoredIn table P.history.objects := by
  refine Timeline.IsStoredIn.exists_of_places ?_
  intro path o _ ho
  obtain ⟨table', m, hm, hpath, hdata⟩ := h.exists_marker ho
  refine ⟨m, ?_, (Table.place_inj hpath).2⟩
  rw [hdata, Marker.decode?_encode, if_pos hm]

end Reachable

/-- What is stored was written. -/
theorem isWrittenIn_of_isStoredIn (h : Reachable regular P)
    (hv : v.IsStoredIn table P.history.objects) : v.IsWrittenIn table P.history.acts := by
  intro e he
  obtain ⟨o, ho, hd⟩ := hv.stored e he
  obtain ⟨-, m, -, -, hdata⟩ := h.exists_marker ho
  obtain rfl : e = m := Marker.eq_of_decode?_encode (hdata ▸ hd)
  have hfind := h.legal.find?_eq (table.markerAt (Marker.timestamp e))
  rw [ho] at hfind
  split at hfind
  · cases hfind
  · rename_i w ws hws
    refine ⟨w, hws ▸ List.mem_cons_self, ?_⟩
    rw [← hdata, Option.some.inj hfind]

/-- Every entry of the view has the time at which it was requested, and so time can be told. -/
structure Dates (P : Pool) (table : Table) (v : Timeline) : Prop where
  /-- One call has created the marker of the entry, and its time is that of the entry. -/
  requested : ∀ e ∈ v.entries, ∃ (i : Nat) (task : Task) (now : Moment), P.tasks[i]? = some task ∧
    task.table = table ∧ task.operation.clock? = some (some now) ∧ e.requestedAt = some now ∧
    ∀ j, P.Appends j table e.timestamp ↔ j = i
  /-- Only if the reference lies in the future, no time has passed since. -/
  elapsed : v.entries ≠ [] → ∀ now, v.elapsed? now = none ↔
    ∃ i m, v.reference? = some i ∧ v.moment? i.timestamp = some m ∧ now.since m < 0

/-- A view that was written is dated by the calls that have appended its instants. -/
theorem dates_of_isWrittenIn (h : Reachable timed P) (hv : v.IsWrittenIn table P.history.acts) :
    P.Dates table v where
  requested := fun e he => h.exists_request hv he
  elapsed := by
    intro hne now
    refine Timeline.elapsed?_eq_none_iff hne ?_
    intro e he hnone
    obtain ⟨i, task, now, -, -, -, hnow, -⟩ := h.exists_request hv he
    rw [hnone] at hnow
    cases hnow

/-- **The times of requests are kept,** whatever sessions call, however their calls overlap and
wherever they fail: every entry of the view of a session, at any moment, and of the view of a
session that opens now, has the time of the one call that created its marker. So, in a view that
is not empty, time can be told unless the reference lies in the future. -/
theorem times_are_kept (h : Reachable timed P) (table : Table) :
    (∃ t : Timeline, (∀ o merges,
      ((Session.load table).run (Calm.answer o) ⟨P.history.objects, merges⟩).1 = .ok t) ∧
      P.Dates table t) ∧
    ∀ v, P.Shows table v → P.Dates table v := by
  have hregular : Reachable regular P := h.mono And.left
  constructor
  · obtain ⟨t, ht⟩ := hregular.exists_isStoredIn table
    refine ⟨t, ?_, dates_of_isWrittenIn h (isWrittenIn_of_isStoredIn hregular ht)⟩
    intro o merges
    exact congrArg Prod.fst (ht.load (s := ⟨P.history.objects, merges⟩) o)
  · rintro v ⟨i, task, hi, rfl, hs⟩
    have hany : Reachable anyone P := h.mono fun _ => trivial
    exact dates_of_isWrittenIn h (hany.isWrittenIn_of_shows (h.follows i task hi) hs)

/-- A delta commit under a timestamp that denotes no moment was appended, and then its call waits
for storage; a session that opens meanwhile can tell the time. -/
theorem times_are_kept_of_opaque :
    ∃ P v now, Reachable timed P ∧ P.Shows .sample v ∧ P.Dates .sample v ∧
      v.entries = [⟨.requested ⟨"abc"⟩ .deltaCommit, .empty, some now⟩] ∧
      Timestamp.moment? ⟨"abc"⟩ = none ∧ v.elapsed? ⟨7, 0, by decide⟩ = some (.ofSeconds 7) := by
  let now : Moment := ⟨0, 0, by decide⟩
  let create : Operation := .createAt .standard ⟨"abc"⟩ .empty now
  let P := (((empty.begun .sample create .empty).turns [0, 0]).begun .sample .refresh .empty).turns
    [1, 1]
  have hcreate : create.IsRegular ∧ create.IsTimed := ⟨⟨by decide, by decide⟩, nofun⟩
  have hrefresh : Operation.refresh.IsRegular ∧ Operation.refresh.IsTimed := ⟨trivial, nofun⟩
  have hP : Reachable timed P :=
    .turns (.start (.turns (.start .empty ⟨hcreate.1, hcreate.2, .inl rfl⟩) _)
      ⟨hrefresh.1, hrefresh.2, .inl rfl⟩) _
  have hview : (P.tasks[1]?.bind Task.result?).map
      (fun r => (r.2.entries, r.2.elapsed? ⟨7, 0, by decide⟩)) =
        some ([⟨.requested ⟨"abc"⟩ .deltaCommit, .empty, some now⟩], some (.ofSeconds 7)) := by
    decide +kernel
  have htable : P.tasks[1]?.map Task.table = some .sample := by decide +kernel
  obtain ⟨⟨r, v⟩, hresult, heq⟩ := Option.map_eq_some_iff.1 hview
  obtain ⟨task, hi, hr⟩ := Option.bind_eq_some_iff.1 hresult
  obtain ⟨hentries, helapsed⟩ := Prod.mk.inj heq
  rw [hi, Option.map_some, Option.some.injEq] at htable
  have hshows : P.Shows .sample v := ⟨1, task, hi, htable, .inl ⟨r, hr⟩⟩
  exact ⟨P, v, now, hP, hshows, (times_are_kept hP .sample).2 v hshows, hentries, by decide,
    helapsed⟩

end Pool
end CommitTimeline
