/-
# What sessions see

Any number of sessions keep views of one table, and nobody else writes there. Each of them
makes one call at a time on its timeline; their requests interleave in every order, and
storage may fail at any of them (`Sessions.Step`). A view may fall behind what is stored,
but it is never wrong, and it never falls back (`Sessions.views_sound_and_monotone`): what it
shows of an instant is a stage that the stored marker has grown from (`Marker.GrowsInto`),
and what it shows later has grown from what it showed before.

A refresh lists the table at one time and reads the markers one by one later, while other
sessions write. What carries the proof is that everything in a view had been written when
the call that is under way began (`Timeline.IsBackedBy`). So the listing finds it, and what
is read at its place has grown from it, since the writes to one place are the stages of one
instant (`Pool.Reachable.pairwise_growsInto`).
-/

import CommitTimeline.Proofs.Pool.Turns
import CommitTimeline.Proofs.Pool.Writes
import CommitTimeline.Proofs.Session.Coherence

namespace CommitTimeline

/-- How many steps an action has taken. -/
def State.rank : State → Nat
  | .requested => 0
  | .inflight => 1
  | .completed => 2

/-- A step leads to the next state. -/
theorem State.rank_of_leads {s target : State} (h : s.Leads target) : target.rank = s.rank + 1 := by
  cases s with
  | requested => cases h; rfl
  | inflight => cases h; rfl
  | completed => cases h

/-- The second marker is of the same instant, and its action has come at least as far. -/
structure Marker.GrowsInto (m m' : Marker) : Prop where
  timestamp : m'.timestamp = m.timestamp
  action : m'.instant.action = m.instant.action ∨ m'.instant.action = m.instant.action.completed
  state : m.instant.state.rank ≤ m'.instant.state.rank
  requestedAt : m'.requestedAt = m.requestedAt

namespace Marker.GrowsInto

variable {m m' m'' : Marker}

/-- A marker has grown from itself. -/
theorem refl (m : Marker) : m.GrowsInto m :=
  ⟨rfl, .inl rfl, Nat.le_refl _, rfl⟩

/-- What has grown from what has grown from a marker has grown from it. -/
theorem trans (h : m.GrowsInto m') (h' : m'.GrowsInto m'') : m.GrowsInto m'' where
  timestamp := h'.timestamp.trans h.timestamp
  action := by
    have hidem : ∀ a : Action, a.completed.completed = a.completed := by
      intro a
      cases a <;> rfl
    rcases h.action with ha | ha <;> rcases h'.action with ha' | ha' <;> rw [ha', ha]
    · exact .inl rfl
    · exact .inr rfl
    · exact .inr rfl
    · exact .inr (hidem _)
  state := Nat.le_trans h.state h'.state
  requestedAt := h'.requestedAt.trans h.requestedAt

/-- A step grows a marker. -/
theorem after {target : State} {details : Option Details} (h : m.instant.state.Leads target) :
    m.GrowsInto (m.after target details) where
  timestamp := rfl
  action := by
    show (if target = .completed then m.instant.action.completed else m.instant.action) = _ ∨
      (if target = .completed then m.instant.action.completed else m.instant.action) = _
    split
    · exact .inr rfl
    · exact .inl rfl
  state := by
    show m.instant.state.rank ≤ target.rank
    rw [State.rank_of_leads h]
    exact Nat.le_succ _
  requestedAt := rfl

end Marker.GrowsInto

namespace Timeline

variable {t u v w : Timeline} {table : Table} {acts later : List Act} {m : Marker}

/-- What the first timeline shows has grown into what the second one shows. -/
def GrowsInto (v w : Timeline) : Prop :=
  ∀ e ∈ v.entries, ∃ e' ∈ w.entries, e.GrowsInto e'

/-- A view has grown from itself. -/
theorem GrowsInto.refl (v : Timeline) : v.GrowsInto v :=
  fun e he => ⟨e, he, .refl e⟩

/-- What has grown from what has grown from a view has grown from it. -/
theorem GrowsInto.trans (h : u.GrowsInto v) (h' : v.GrowsInto w) : u.GrowsInto w := by
  intro e he
  obtain ⟨e', he', hg⟩ := h e he
  obtain ⟨e'', he'', hg'⟩ := h' e' he'
  exact ⟨e'', he'', hg.trans hg'⟩

/-- Every entry has been written to its place. -/
structure IsBackedBy (v : Timeline) (table : Table) (acts : List Act) : Prop where
  strict : v.IsStrict
  written : ∀ e ∈ v.entries,
    ∃ w ∈ History.writesAt (table.markerAt e.timestamp) acts, w.data = e.encode

/-- In the empty view there is nothing to back. -/
theorem isBackedBy_empty : Timeline.empty.IsBackedBy table acts where
  strict := isStrict_empty
  written := by
    intro e he
    cases he

/-- What has been written stays so. -/
theorem IsBackedBy.mono (h : v.IsBackedBy table acts) (later : List Act) :
    v.IsBackedBy table (later ++ acts) where
  strict := h.strict
  written := by
    intro e he
    obtain ⟨w, hw, hd⟩ := h.written e he
    exact ⟨w, History.writesAt_append ▸ List.mem_append_right _ hw, hd⟩

end Timeline

namespace Session

variable {table : Table} {v : Timeline}

/-- What a call has made of the view, by what it has asked and been answered. -/
inductive Updates (table : Table) (v : Timeline) (own : List Exchange) : Timeline → Prop where
  | kept : Updates table v own v
  | loaded {w : Timeline} (h : Loads table w own) : Updates table v own w
  | put {m : Marker} {e : Exchange} (he : e ∈ own)
      (hw : e.write? = some (table.markerAt m.timestamp, m.encode)) :
      Updates table v own (v.upsert m)

/-- **A call replaces the view by what it has read, or puts what it has written,** or it fails
and leaves the view as it was. -/
theorem safe_updates {op : Operation} (ho : op.IsSession) :
    ((op.call table).program v).Safe Alone (fun _ => True)
      (fun r own => Updates table v own r.2) [] := by
  have hsafe : (op.call table).Safe Alone (fun _ => True) (fun _ _ => True)
      (fun _ w own => Updates table v own w) v [] := by
    cases op with
    | refresh =>
      refine Call.Safe.bind (safe_refresh.mono (fun _ _ => trivial) (fun _ _ _ => trivial)
        fun _ _ _ h => h) ?_
      intro _ w own hl
      exact Call.safe_pure (.loaded hl)
    | append instant details requestedAt =>
      refine Call.Safe.bind ((safe_append instant details requestedAt).mono (fun _ _ => trivial)
        (fun _ _ _ => trivial) fun _ _ _ h => h) ?_
      rintro _ w own ⟨rfl, -, rfl, version, rfl⟩
      exact Call.safe_pure (.put List.mem_cons_self rfl)
    | transition instant target details =>
      refine Call.Safe.bind ((safe_transition instant target details).mono (fun _ _ => trivial)
        (fun _ _ _ => trivial) fun _ _ _ h => h) ?_
      rintro _ w own ⟨rfl, -, current, m, rfl, hm⟩
      obtain ⟨known, data, version, -, ho⟩ := hm.exchanges
      refine Call.safe_pure (.put (ho ▸ List.mem_cons_self) ?_)
      rw [hm.timestamp]
      rfl
    | _ => cases ho
  refine (Program.Safe.and_yields hsafe (restores_call ho)).mono (fun _ h => h) ?_
  rintro ⟨e | r, w⟩ own ⟨h, hw⟩
  · obtain rfl : w = v := hw e rfl
    exact .kept
  · exact h

end Session

namespace Pool.Reachable

variable {P : Pool} {table : Table} {t : Timestamp} {m : Marker} {later earlier : List Act}
  {v w : Timeline} {i : Nat}

/-- What was written is a marker at its place. -/
theorem marker_of_mem_writesAt (h : Reachable anyone P) {path : String} {w : Write}
    (hw : w ∈ History.writesAt path P.history.acts) :
    ∃ table m, path = Table.markerAt table (Marker.timestamp m) ∧ w.data = m.encode := by
  obtain ⟨⟨i, e⟩, ha, -, he⟩ := History.mem_writesAt.1 hw
  obtain ⟨later, before, hacts⟩ := List.append_of_mem ha
  obtain ⟨table, m, hm⟩ := h.exists_written hacts (by rw [he]; exact Option.some_ne_none _)
  have hpath := hm.write?
  rw [he, Option.some.injEq, Prod.mk.injEq] at hpath
  exact ⟨table, m, hpath⟩

/-- **Of what was written to one place, the earlier has grown into the later.** -/
theorem pairwise_growsInto (h : Reachable anyone P) (table : Table) (t : Timestamp) :
    (History.writesAt (table.markerAt t) P.history.acts).Pairwise fun w w' =>
      ∀ m m' : Marker, w.data = m.encode → w'.data = m'.encode → m'.GrowsInto m := by
  obtain ⟨stages, hwrites, -, hchain⟩ := h.exists_stages_of_any table t
  have hgrows : stages.IsChain fun a b => a.marker.GrowsInto b.marker := by
    refine hchain.imp ?_
    rintro a b ⟨-, target, details, hl, hb⟩
    rw [hb]
    exact .after hl
  have : IsTrans Stage fun a b => a.marker.GrowsInto b.marker := ⟨fun _ _ _ h h' => h.trans h'⟩
  rw [← List.reverse_reverse (History.writesAt _ _), List.pairwise_reverse, hwrites,
    List.pairwise_map]
  refine (List.isChain_iff_pairwise.1 hgrows).imp ?_
  intro a b hab m m' hm hm'
  obtain rfl := Marker.encode_injective hm
  obtain rfl := Marker.encode_injective hm'
  exact hab

/-- What was written to a place has grown into what was read there later. -/
theorem growsInto_of_read (h : Reachable anyone P) {data : Bytes} {l l' : List Act} {e : Marker}
    (ha : P.history.acts = l ++ ⟨i, .read (table.markerAt t) data⟩ :: l')
    (hd : Marker.decode? data = some m)
    (he : ∃ w ∈ History.writesAt (table.markerAt t) l', w.data = e.encode) : e.GrowsInto m := by
  obtain ⟨w₀, ws, hw₀, rfl⟩ := (h.legal_acts ha).get
  have hmem : w₀ ∈ History.writesAt (table.markerAt t) P.history.acts := by
    rw [ha, History.writesAt_append, History.writesAt_cons_of_idle rfl, hw₀]
    exact List.mem_append_right _ List.mem_cons_self
  obtain ⟨table', m', -, hdata⟩ := h.marker_of_mem_writesAt hmem
  obtain rfl : m = m' := Marker.eq_of_decode?_encode (hdata ▸ hd)
  obtain ⟨w, hw, hwe⟩ := he
  rw [hw₀] at hw
  rcases List.mem_cons.1 hw with rfl | hw
  · obtain rfl := Marker.encode_injective (hdata.symm.trans hwe)
    exact .refl m
  · have hpairs := h.pairwise_growsInto table t
    rw [ha, History.writesAt_append, History.writesAt_cons_of_idle rfl, hw₀] at hpairs
    have hlast := (List.pairwise_cons.1 (List.pairwise_append.1 hpairs).2.1).1 w hw
    exact hlast m e hdata hwe

/-- What a task has read had been written to its place. -/
theorem written_of_read (h : Reachable anyone P) {path : String} {data : Bytes}
    (hr : Exchange.read (table.place path) data ∈ P.own i) (hd : Marker.decode? data = some m) :
    path = Table.markerPath m.timestamp.text ∧
      ∃ w ∈ History.writesAt (table.markerAt m.timestamp) P.history.acts, w.data = m.encode := by
  obtain ⟨w, hw, rfl⟩ := h.exists_write_of_read (History.mem_own.1 hr)
  obtain ⟨table', m', hpath, hdata⟩ := h.marker_of_mem_writesAt hw
  obtain rfl : m = m' := Marker.eq_of_decode?_encode (hdata ▸ hd)
  obtain ⟨rfl, rfl⟩ := Table.place_inj hpath
  exact ⟨rfl, w, hw, hdata⟩

/-- What a task has done since it began comes after what was done before. -/
theorem exists_since (ha : P.history.acts = later ++ earlier) (hi : History.own i earlier = [])
    {e : Exchange} (he : e ∈ P.own i) :
    ∃ l l', later = l ++ ⟨i, e⟩ :: l' ∧ P.history.acts = l ++ ⟨i, e⟩ :: (l' ++ earlier) := by
  rw [own, ha, History.own_append, hi, List.append_nil] at he
  obtain ⟨l, l', rfl⟩ := List.append_of_mem (History.mem_own.1 he)
  exact ⟨l, l', rfl, by rw [ha, List.append_assoc]; rfl⟩

/-- **A refresh sees everything that had been written when it began,** as it was or as it has
grown since. -/
theorem of_loads (h : Reachable anyone P) (ha : P.history.acts = later ++ earlier)
    (hi : History.own i earlier = []) (hv : v.IsBackedBy table earlier)
    (hl : Session.Loads table w (P.own i)) :
    w.IsBackedBy table P.history.acts ∧ v.GrowsInto w := by
  obtain ⟨-, found, markers, hlisted, hall, rfl⟩ := hl
  obtain ⟨l, l', -, hacts⟩ := exists_since ha hi hlisted
  obtain ⟨s₀, s₁, hlegal, hleads, -⟩ := (h.legal_acts hacts).of_append
  have hfound : found.Perm (s₀.list (table.place Table.timelineDirectory)) := hleads.1
  refine ⟨⟨?_, ?_⟩, ?_⟩
  · have hpaths := hall.imp fun path m ⟨_, _, hread, hd⟩ => (h.written_of_read hread hd).1
    rw [← List.forall₂_map_right_iff, List.forall₂_eq_eq_eq] at hpaths
    have hnodup : (Storage.Objects.searched table found).Nodup :=
      Storage.Objects.nodup_searched hfound
    rw [Storage.Objects.searched, hpaths] at hnodup
    refine Timeline.isStrict_ofEntries
      (List.Nodup.of_map (fun t : Timestamp => Table.markerPath t.text) ?_)
    rw [List.map_map]
    exact hnodup
  · intro e he
    obtain ⟨path, -, data, hread, hd⟩ := Session.exists_readAt hall (Timeline.mem_ofEntries.1 he)
    exact (h.written_of_read hread hd).2
  · intro e he
    have hplace : ∃ o, s₀.find? (table.markerAt e.timestamp) = some o := by
      obtain ⟨w, hw, -⟩ := (hv.mono l').written e he
      have hfind := hlegal.find?_eq (table.markerAt e.timestamp)
      split at hfind
      · rename_i hnil
        rw [hnil] at hw
        cases hw
      · exact ⟨_, hfind⟩
    have hsearched : Table.markerPath e.timestamp.text ∈ Storage.Objects.searched table found :=
      (Storage.Objects.mem_searched hfound).2 ⟨table.isSearched_markerPath _, hplace⟩
    obtain ⟨m, hm, hread⟩ := Session.exists_mem_readAt hall hsearched
    refine ⟨m, Timeline.mem_ofEntries.2 hm, ?_⟩
    obtain ⟨-, data, hmem, hd⟩ := hread
    obtain ⟨k, k', -, hacts'⟩ := exists_since ha hi hmem
    exact h.growsInto_of_read hacts' hd ((hv.mono k').written e he)

/-- What a call has put has grown from what was written when it began. -/
theorem of_put (h : Reachable anyone P) (ha : P.history.acts = later ++ earlier)
    (hi : History.own i earlier = []) (hv : v.IsBackedBy table earlier) {e : Exchange}
    (he : e ∈ P.own i) (hw : e.write? = some (table.markerAt m.timestamp, m.encode)) :
    (v.upsert m).IsBackedBy table P.history.acts ∧ v.GrowsInto (v.upsert m) := by
  obtain ⟨l, l', rfl, hacts⟩ := exists_since ha hi he
  have hwrite : ⟨i, m.encode⟩ ∈
      History.writesAt (table.markerAt m.timestamp) (l ++ ⟨i, e⟩ :: l') :=
    History.mem_writesAt.2 ⟨⟨i, e⟩, List.mem_append_right _ List.mem_cons_self, rfl, hw⟩
  refine ⟨⟨hv.strict.upsert m, ?_⟩, ?_⟩
  · intro x hx
    rcases (Timeline.mem_upsert_iff hv.strict).1 hx with rfl | ⟨hx, -⟩
    · refine ⟨⟨i, Marker.encode x⟩, ?_, rfl⟩
      rw [ha, History.writesAt_append]
      exact List.mem_append_left _ hwrite
    · rw [ha]
      exact (hv.mono _).written x hx
  · intro x hx
    by_cases ht : x.timestamp = m.timestamp
    · refine ⟨m, Timeline.mem_upsert_self v m, ?_⟩
      obtain ⟨w, hw, hd⟩ := hv.written x hx
      have hpairs := h.pairwise_growsInto table m.timestamp
      rw [ha, History.writesAt_append] at hpairs
      exact (List.pairwise_append.1 hpairs).2.2 _ hwrite w (ht ▸ hw) m x rfl hd
    · exact ⟨x, (Timeline.mem_upsert_iff hv.strict).2 (.inr ⟨hx, ht⟩), .refl x⟩

end Pool.Reachable

/-- Sessions on one table: what they have asked and been answered, and the view of each of them
and the call that it is making, if it is making one. -/
structure Sessions where
  pool : Pool
  view : Nat → Timeline
  call : Nat → Option Nat

namespace Sessions

/-- Nothing is stored, and nothing was called. -/
def empty : Sessions :=
  ⟨.empty, fun _ => .empty, fun _ => none⟩

/-- What can happen next. -/
inductive Step (table : Table) : Sessions → Sessions → Prop where
  /-- A session that makes no call begins one. -/
  | begins {S : Sessions} {k : Nat} {op : Operation} (hk : S.call k = none) (ho : op.IsSession) :
      Step table S ⟨S.pool.begun table op (S.view k), S.view,
        Function.update S.call k (some S.pool.tasks.length)⟩
  /-- A call asks and is answered. -/
  | asks {S : Sessions} {P : Pool} (h : S.pool.Step P) : Step table S { S with pool := P }
  /-- A call returns, and the session has the view that it leaves. -/
  | returns {S : Sessions} {k i : Nat} {task : Task} {r : Except Error Reply} {w : Timeline}
      (hk : S.call k = some i) (hi : S.pool.tasks[i]? = some task)
      (hr : task.result? = some (r, w)) :
      Step table S ⟨S.pool, Function.update S.view k w, Function.update S.call k none⟩

/-- What has happened by and by. -/
abbrev Steps (table : Table) : Sessions → Sessions → Prop :=
  Relation.ReflTransGen (Step table)

/-- A task that began with a view has not come further than its call does alone. -/
structure Makes (table : Table) (P : Pool) (i : Nat) (v : Timeline) (task : Task) : Prop where
  is_task : P.tasks[i]? = some task
  safe : task.rest.Safe Alone (fun _ => True)
    (fun r own => Session.Updates table v own r.2) (P.own i)
  quiet : ∃ p : Program (Except Error Reply × Timeline), task.rest = p.quiet

/-- Everything in the view of a session had been written when its call began. -/
structure IsBacked (table : Table) (P : Pool) (v : Timeline) (call : Option Nat)
    (earlier : List Act) : Prop where
  before : earlier <:+ P.history.acts
  backed : v.IsBackedBy table earlier
  calling : ∀ i ∈ call, History.own i earlier = [] ∧ ∃ task, Makes table P i v task

/-- What holds of sessions at every moment. -/
structure IsSound (table : Table) (S : Sessions) : Prop where
  reachable : Pool.Reachable Pool.anyone S.pool
  views : ∀ k, ∃ earlier, IsBacked table S.pool (S.view k) (S.call k) earlier

variable {table : Table} {S S' : Sessions} {P P' : Pool} {v : Timeline} {call : Option Nat}
  {earlier : List Act} {i : Nat} {task : Task}

/-- Sessions that have not called anything are sound. -/
theorem isSound_empty : empty.IsSound table where
  reachable := .empty
  views := by
    intro k
    refine ⟨[], List.suffix_refl _, Timeline.isBackedBy_empty, ?_⟩
    intro i hi
    cases hi

/-- What was written when a call began is written now. -/
theorem IsBacked.now (h : IsBacked table P v call earlier) :
    v.IsBackedBy table P.history.acts := by
  obtain ⟨later, hl⟩ := h.before
  rw [← hl]
  exact h.backed.mono later

/-- A call that begins does not disturb the others. -/
theorem IsBacked.begun (h : IsBacked table P v call earlier) (op : Operation) (w : Timeline) :
    IsBacked table (P.begun table op w) v call earlier where
  before := h.before
  backed := h.backed
  calling := by
    intro i hi
    obtain ⟨hown, task, htask⟩ := h.calling i hi
    refine ⟨hown, task, ?_, htask.safe, htask.quiet⟩
    show (P.tasks ++ [_])[i]? = some task
    rw [List.getElem?_append_left (List.getElem?_eq_some_iff.1 htask.is_task).1]
    exact htask.is_task

/-- A call that has begun is after everything. -/
theorem isBacked_begun (h : Pool.Reachable Pool.anyone P) (hv : v.IsBackedBy table P.history.acts)
    {op : Operation} (ho : op.IsSession) :
    IsBacked table (P.begun table op v) v (some P.tasks.length) P.history.acts where
  before := List.suffix_refl _
  backed := hv
  calling := by
    rintro _ ⟨⟩
    refine ⟨h.own_length, _, List.getElem?_concat_length, ?_, _, rfl⟩
    show (Task.start table op v).rest.Safe _ _ _ (P.own P.tasks.length)
    rw [h.own_length]
    exact (Session.safe_updates ho).quiet

/-- A step of one call is followed by the others. -/
theorem IsBacked.step (h : IsBacked table P v call earlier) (hs : P.Step P') :
    IsBacked table P' v call earlier := by
  obtain ⟨a, ha⟩ := hs.acts
  refine ⟨h.before.trans (ha ▸ List.suffix_cons a _), h.backed, ?_⟩
  intro i hi
  obtain ⟨hown, task, htask⟩ := h.calling i hi
  refine ⟨hown, ?_⟩
  obtain ⟨task', hi'⟩ := hs.exists_task htask.is_task
  obtain ⟨_, hi₀, -, -, hkeeps⟩ := hs.keeps hi'
  obtain rfl := Option.some.inj (htask.is_task.symm.trans hi₀)
  obtain ⟨hsafe, hquiet⟩ := hkeeps ⟨htask.safe, htask.quiet⟩
  exact ⟨task', hi', hsafe, hquiet⟩

/-- **A call that returns leaves a view that is backed,** and that has grown. -/
theorem IsBacked.returns (h : IsBacked table P v (some i) earlier)
    (hP : Pool.Reachable Pool.anyone P) (hi : P.tasks[i]? = some task) {r : Except Error Reply}
    {w : Timeline} (hr : task.result? = some (r, w)) :
    w.IsBackedBy table P.history.acts ∧ v.GrowsInto w := by
  obtain ⟨later, hl⟩ := h.before
  obtain ⟨hown, task', htask⟩ := h.calling i rfl
  obtain rfl := Option.some.inj (hi.symm.trans htask.is_task)
  cases Task.IsSafe.of_result ⟨htask.safe, htask.quiet⟩ hr with
  | kept => exact ⟨h.now, .refl _⟩
  | loaded hloads => exact hP.of_loads hl.symm hown h.backed hloads
  | put he hw => exact hP.of_put hl.symm hown h.backed he hw

/-- **What happens keeps the views sound, and they grow.** -/
theorem IsSound.step (h : S.IsSound table) (hs : Step table S S') :
    S'.IsSound table ∧ ∀ k, (S.view k).GrowsInto (S'.view k) := by
  cases hs with
  | @begins k op hk ho =>
    refine ⟨⟨h.reachable.start trivial, ?_⟩, fun _ => .refl _⟩
    intro l
    obtain ⟨earlier, hl⟩ := h.views l
    show ∃ earlier, IsBacked table (S.pool.begun table op (S.view k)) (S.view l)
      (Function.update S.call k (some S.pool.tasks.length) l) earlier
    by_cases hkl : l = k
    · subst hkl
      rw [Function.update_self]
      exact ⟨_, isBacked_begun h.reachable hl.now ho⟩
    · rw [Function.update_of_ne hkl]
      exact ⟨earlier, hl.begun op _⟩
  | asks hs =>
    refine ⟨⟨h.reachable.step hs, ?_⟩, fun _ => .refl _⟩
    intro l
    obtain ⟨earlier, hl⟩ := h.views l
    exact ⟨earlier, hl.step hs⟩
  | @returns k i task r w hk hi hr =>
    obtain ⟨earlier, hb⟩ := h.views k
    rw [hk] at hb
    obtain ⟨hw, hgrows⟩ := hb.returns h.reachable hi hr
    refine ⟨⟨h.reachable, ?_⟩, ?_⟩
    · intro l
      show ∃ earlier, IsBacked table S.pool (Function.update S.view k w l)
        (Function.update S.call k none l) earlier
      by_cases hkl : l = k
      · subst hkl
        rw [Function.update_self, Function.update_self]
        refine ⟨_, List.suffix_refl _, hw, ?_⟩
        intro i hi
        cases hi
      · rw [Function.update_of_ne hkl, Function.update_of_ne hkl]
        exact h.views l
    · intro l
      show (S.view l).GrowsInto (Function.update S.view k w l)
      by_cases hkl : l = k
      · subst hkl
        rw [Function.update_self]
        exact hgrows
      · rw [Function.update_of_ne hkl]
        exact .refl _

/-- **Whatever the sessions do, they stay sound,** and their views only grow. -/
theorem IsSound.steps (h : S.IsSound table) (hs : Steps table S S') :
    S'.IsSound table ∧ ∀ k, (S.view k).GrowsInto (S'.view k) := by
  induction hs with
  | refl => exact ⟨h, fun _ => .refl _⟩
  | tail _ hs ih =>
    obtain ⟨hsound, hgrows⟩ := ih.1.step hs
    exact ⟨hsound, fun k => (ih.2 k).trans (hgrows k)⟩

/-- What has been written to its place has grown into what is stored there. -/
theorem exists_stored (h : Pool.Reachable Pool.anyone P) (hv : v.IsBackedBy table P.history.acts)
    {e : Entry} (he : e ∈ v.entries) :
    ∃ (m : Marker) (version : Nat), P.history.objects.find? (table.markerAt e.timestamp) =
      some ⟨m.encode, version⟩ ∧ e.GrowsInto m := by
  obtain ⟨w, hw, hd⟩ := hv.written e he
  have hfind := h.legal.find?_eq (table.markerAt e.timestamp)
  have hpairs := h.pairwise_growsInto table e.timestamp
  split at hfind
  · rename_i hnil
    rw [hnil] at hw
    cases hw
  · rename_i last ws hws
    obtain ⟨table', m, -, hlast⟩ := h.marker_of_mem_writesAt (hws ▸ List.mem_cons_self)
    rw [hlast] at hfind
    refine ⟨m, _, hfind, ?_⟩
    rw [hws] at hw hpairs
    rcases List.mem_cons.1 hw with rfl | hw
    · obtain rfl := Marker.encode_injective (hlast.symm.trans hd)
      exact .refl m
    · exact (List.pairwise_cons.1 hpairs).1 w hw m e hlast hd

/-- **Views are sound, and they only grow,** however the calls of the sessions interleave and
wherever they fail: each instant in a view is persisted, requested at the same time and at
least as far advanced; and it stays in the view and never moves back there. -/
theorem views_sound_and_monotone (h : Steps table empty S) :
    (∀ k, (S.view k).IsStrict ∧ ∀ e ∈ (S.view k).entries, ∃ (m : Marker) (version : Nat),
      S.pool.history.objects.find? (table.markerAt e.timestamp) = some ⟨m.encode, version⟩ ∧
      e.GrowsInto m) ∧
    ∀ S', Steps table S S' → ∀ k, (S.view k).GrowsInto (S'.view k) := by
  have hsound := (isSound_empty.steps h).1
  refine ⟨?_, fun S' hs => (hsound.steps hs).2⟩
  intro k
  obtain ⟨earlier, hk⟩ := hsound.views k
  exact ⟨hk.now.strict, fun e he => exists_stored hsound.reachable hk.now he⟩

/-- A session begins a call, unless it is making one. -/
def begun (S : Sessions) (table : Table) (k : Nat) (op : Operation) : Sessions :=
  match S.call k with
  | none => ⟨S.pool.begun table op (S.view k), S.view,
      Function.update S.call k (some S.pool.tasks.length)⟩
  | some _ => S

/-- Calls ask and are answered in calm, in the given order. -/
def turned (S : Sessions) (l : List Nat) : Sessions :=
  { S with pool := S.pool.turns l }

/-- The call of a session returns, if it has come to its end. -/
def returned (S : Sessions) (k : Nat) : Sessions :=
  match (S.call k).bind fun i => S.pool.tasks[i]?.bind Task.result? with
  | some (_, w) => ⟨S.pool, Function.update S.view k w, Function.update S.call k none⟩
  | none => S

/-- A session may begin a call if it has none under way. -/
theorem steps_begun (S : Sessions) (k : Nat) {op : Operation} (ho : op.IsSession) :
    Steps table S (S.begun table k op) := by
  unfold begun
  split
  · rename_i hk
    exact .single (.begins hk ho)
  · exact .refl

/-- Turns are steps of the sessions. -/
theorem steps_turned (S : Sessions) (l : List Nat) : Steps table S (S.turned l) := by
  induction l generalizing S with
  | nil => exact .refl
  | cons i l ih =>
    have hturn : Steps table S { S with pool := S.pool.turn i } := by
      rcases S.pool.turn_step i with hP | ⟨hs, -⟩
      · rw [hP]
      · exact .single (.asks hs)
    exact hturn.trans (ih { S with pool := S.pool.turn i })

/-- The return of a call is a step, or nothing. -/
theorem steps_returned (S : Sessions) (k : Nat) : Steps table S (S.returned k) := by
  unfold returned
  split
  · rename_i r w h
    obtain ⟨i, hk, hi⟩ := Option.bind_eq_some_iff.1 h
    obtain ⟨task, htask, hr⟩ := Option.bind_eq_some_iff.1 hi
    exact .single (.returns hk htask hr)
  · exact .refl

/-- One session has listed the table, and the other one puts its delta commit in flight before
the marker is read. -/
theorem views_sound_and_monotone_of_overlap :
    ∃ S S', Steps .sample empty S ∧ Steps .sample S S' ∧
      (S.view 0).entries = [⟨⟨⟨"001"⟩, .deltaCommit, .requested⟩, .empty, none⟩] ∧
      (S'.view 1).entries = [⟨⟨⟨"001"⟩, .deltaCommit, .inflight⟩, .empty, none⟩] ∧
      (∀ k, (S.view k).IsStrict ∧ ∀ e ∈ (S.view k).entries, ∃ (m : Marker) (version : Nat),
        S.pool.history.objects.find? (Table.sample.markerAt e.timestamp) =
          some ⟨m.encode, version⟩ ∧ e.GrowsInto m) ∧
      ∀ k, (S.view k).GrowsInto (S'.view k) := by
  let append : Operation := .append (.requested ⟨"001"⟩ .deltaCommit) .empty none
  let start : Operation := .transition (.requested ⟨"001"⟩ .deltaCommit) .inflight none
  let S := ((empty.begun .sample 0 append).turned [0]).returned 0
  let S' := ((((S.begun .sample 1 .refresh).turned [1]).begun .sample 0 start).turned
    [2, 2, 2, 1]).returned 1
  have happend : append.IsSession := trivial
  have hrefresh : Operation.refresh.IsSession := trivial
  have hstart : start.IsSession := trivial
  have hS : Steps .sample empty S :=
    ((steps_begun _ 0 happend).trans (steps_turned _ _)).trans (steps_returned _ _)
  have hS' : Steps .sample S S' :=
    ((((steps_begun _ 1 hrefresh).trans (steps_turned _ _)).trans
      (steps_begun _ 0 hstart)).trans (steps_turned _ _)).trans (steps_returned _ _)
  obtain ⟨hsound, hmonotone⟩ := views_sound_and_monotone hS
  refine ⟨S, S', hS, hS', ?_, ?_, hsound, hmonotone S' hS'⟩
  · decide +kernel
  · decide +kernel

end Sessions
end CommitTimeline
