/-
# Instants in order

Calls on one table come one after the other, by any sessions with any views: those that
write and compact data, transitions of any instant, and appends of any instant right
after a refresh by the same session. Then timestamps are created in increasing order,
so none is used twice, and at most one compaction is outstanding in storage at any
moment (`Pool.ordered`).

The timeline that is stored keeps both (`Timeline.Ordered`): an append checks them on
its view, which is what is stored, and a step of an instant leaves all timestamps as
they are and no compaction outstanding that was not.
-/

import CommitTimeline.Proofs.Compaction.Serial
import CommitTimeline.Proofs.Pool.Turns

namespace CommitTimeline

namespace Marker

/-- A step leaves a compaction outstanding only if it was. -/
theorem isOutstanding_of_after {m : Marker} {target : State} {details : Option Details}
    (h : (m.after target details).IsOutstanding) (hl : m.instant.state.Leads target) :
    m.IsOutstanding := by
  obtain ⟨⟨t, a, s⟩, d, r⟩ := m
  obtain ⟨ha, hs⟩ := h
  constructor
  · show a = .compaction
    change (if target = .completed then a.completed else a) = .compaction at ha
    rw [if_neg (show target ≠ .completed from hs)] at ha
    exact ha
  · rintro rfl
    cases hl

end Marker

namespace Timeline

/-- The timestamps that were created, in this order, are those of the timeline, and at most
one compaction is outstanding. -/
structure Ordered (created : List Marker) (t : Timeline) : Prop where
  created : created.reverse.map (·.timestamp) = t.entries.map (·.timestamp)
  outstanding : ∀ a ∈ t.entries, ∀ b ∈ t.entries, a.IsOutstanding → b.IsOutstanding → a = b

namespace Ordered

variable {created : List Marker} {t : Timeline} {m e : Marker}

/-- Nothing created leaves the empty timeline in order. -/
theorem empty : Ordered [] .empty where
  created := rfl
  outstanding := by
    intro a ha
    cases ha

/-- An append is later than all there is, and of a compaction only if none is outstanding. -/
theorem append (h : Ordered created t) (hr : Session.refusal? t m.instant = none) :
    Ordered (m :: created) (t.upsert m) := by
  have hlt := Session.lt_of_refusal? hr
  have hnone : m.IsOutstanding → ∀ b ∈ t.entries, ¬b.IsOutstanding :=
    fun hm => Session.not_isOutstanding_of_refusal? hr hm.1
  constructor
  · rw [upsert_of_lt hlt, List.reverse_cons, List.map_append, List.map_append, h.created]
  · intro a ha b hb hao hbo
    rcases mem_of_mem_upsert ha with ha | ha
    · rcases mem_of_mem_upsert hb with hb | hb
      · rw [ha, hb]
      · exact absurd hbo (hnone (ha ▸ hao) b hb)
    · rcases mem_of_mem_upsert hb with hb | hb
      · exact absurd hao (hnone (hb ▸ hbo) a ha)
      · exact h.outstanding a ha b hb hao hbo

/-- A step of an entry leaves the timestamps, and no other compaction outstanding. -/
theorem transition (h : Ordered created t) (ht : t.IsStrict) (he : e ∈ t.entries) {target : State}
    {details : Option Details} (hl : e.instant.state.Leads target) :
    Ordered created (t.upsert (e.after target details)) := by
  have htime : (e.after target details).timestamp = e.timestamp := e.timestamp_after target details
  -- what was outstanding besides the entry cannot be, if the entry is
  have hother : ∀ b, b ∈ t.entries ∧ b.timestamp ≠ (e.after target details).timestamp →
      (e.after target details).IsOutstanding → ¬b.IsOutstanding := by
    rintro b ⟨hb, hne⟩ heo hbo
    rw [h.outstanding b hb e he hbo (Marker.isOutstanding_of_after heo hl)] at hne
    exact hne htime.symm
  constructor
  · rw [h.created, upsert_of_mem ht he htime.symm, List.map_map]
    refine List.map_congr_left ?_
    intro x hx
    show x.timestamp = (if x = e then e.after target details else x).timestamp
    split
    · rename_i hxe
      rw [htime, hxe]
    · rfl
  · intro a ha b hb hao hbo
    rcases (mem_upsert_iff ht).1 ha with ha | ha
    · rcases (mem_upsert_iff ht).1 hb with hb | hb
      · rw [ha, hb]
      · exact absurd hbo (hother b hb (ha ▸ hao))
    · rcases (mem_upsert_iff ht).1 hb with hb | hb
      · exact absurd hao (hother a ha (hb ▸ hbo))
      · exact h.outstanding a ha.1 b hb.1 hao hbo

/-- **Every write keeps the order.** -/
theorem isInvariant : IsInvariant Ordered := by
  intro created t new t' ht h ha
  cases ha with
  | request hr => exact h.append hr
  | ingest he _ hs => exact h.transition ht he (hs ▸ rfl)
  | commit he _ hs _ => exact h.transition ht he (hs ▸ rfl)
  | schedule hr => exact h.append hr
  | compact he _ hl => exact h.transition ht he hl

end Ordered
end Timeline

namespace Pool

/-- Calls on a table begin where all calls before have returned, with any view; an append
begins right after a refresh that succeeded, with the view of it. -/
def serial (table : Table) (P : Pool) (u : Table) (op : Operation) (v : Timeline) : Prop :=
  u = table ∧ (∀ task ∈ P.tasks, task.result?.isSome) ∧
    ∀ instant details requestedAt, op = .append instant details requestedAt →
      P.Returned .refresh .nothing v

/-- A marker is stored somewhere in the table where a refresh looks. -/
def Persists (P : Pool) (table : Table) (m : Marker) : Prop :=
  ∃ path version, table.IsSearched path ∧
    P.history.objects.find? (table.place path) = some ⟨m.encode, version⟩

/-- Timestamps are created in increasing order, and at most one compaction is outstanding. -/
structure Ordered (P : Pool) (table : Table) : Prop where
  /-- What was created, in this order, are markers of increasing timestamps. -/
  created : ∃ markers : List Marker, (History.creations P.history.acts).reverse =
      markers.map (fun m => (table.markerAt m.timestamp, m.encode)) ∧
    markers.Pairwise fun a b => a.timestamp < b.timestamp
  outstanding : ∀ a b, P.Persists table a → P.Persists table b →
    a.IsOutstanding → b.IsOutstanding → a = b

/-- A pool is in order where the timeline that its history holds is. -/
theorem Ordered.of_holds {P : Pool} {table : Table} {created : List Marker} {t : Timeline}
    (hh : P.history.Holds table created t) (h : Timeline.Ordered created t) : P.Ordered table where
  created := by
    refine ⟨created.reverse, ?_, ?_⟩
    · rw [hh.created, List.map_reverse]
    · rw [← List.pairwise_map, h.created, List.pairwise_map]
      exact hh.strict
  outstanding := by
    rintro a b ⟨p, n, hp, ha⟩ ⟨q, k, hq, hb⟩ hao hbo
    obtain ⟨x, hx, -, hax⟩ := hh.exists_entry hp ha
    obtain ⟨y, hy, -, hby⟩ := hh.exists_entry hq hb
    obtain rfl := Marker.encode_injective hax
    obtain rfl := Marker.encode_injective hby
    exact h.outstanding a hx b hy hao hbo

/-- What a call leaves: after a refresh, the view is what is stored. -/
def Sees (table : Table) (op : Operation) (_ : Reply) (w : Timeline) (h : History) : Prop :=
  op = .refresh → h.Seen table Timeline.Ordered w

/-- One call of a serial pool keeps the order. -/
theorem Serial.safe_call {table u : Table} {P : Pool} {op : Operation} {v : Timeline}
    (ha : serial table P u op v) (hs : P.Serial (·.Kept table Timeline.Ordered) (Sees table)) :
    (op.call u).Safe (History.Step P.tasks.length) (·.Kept table Timeline.Ordered)
      (fun _ h => h.Kept table Timeline.Ordered)
      (fun r w h => h.Kept table Timeline.Ordered ∧ Sees table op r w h) v P.history := by
  obtain ⟨rfl, -, happend⟩ := ha
  have hmanaged : op.IsManaged → (op.call u).Safe (History.Step P.tasks.length)
      (·.Kept u Timeline.Ordered) (fun _ h => h.Kept u Timeline.Ordered)
      (fun r w h => h.Kept u Timeline.Ordered ∧ Sees u op r w h) v P.history := by
    intro hop
    refine (Timeline.Ordered.isInvariant.safe_call hop hs.holds).imp ?_
    intro r w h hw
    exact ⟨hw.kept, fun _ => hw⟩
  cases op with
  | append instant details requestedAt =>
    have hv : P.history.Seen u Timeline.Ordered v :=
      hs.of_returned (happend instant details requestedAt rfl) rfl
    refine Call.Safe.bind (hv.safe_append ⟨instant, details, requestedAt⟩ ?_) ?_
    · intro created _ hj hr
      exact hj.append hr
    · rintro i w h ⟨-, -, -, hw⟩
      exact Call.safe_pure ⟨hw.kept, fun h => by cases h⟩
  | transition instant target details =>
    obtain ⟨t, ht⟩ := hs.holds
    refine Call.Safe.bind (ht.safe_transition ?_) ?_
    · intro created e hstrict hj he hi hl
      exact hj.transition hstrict he (hi ▸ hl)
    · rintro i w h ⟨-, e, -, -, -, hw⟩
      exact Call.safe_pure ⟨hw.kept, fun h => by cases h⟩
  | _ => exact hmanaged trivial

/-- **Timestamps increase and at most one compaction is outstanding,** at every moment of
calls that come one after the other, where nothing was stored of the table at first. -/
theorem ordered {base : Storage.Objects} {table : Table} {P : Pool}
    (hempty : ∀ path, table.IsSearched path → base.find? (table.place path) = none)
    (h : ReachableFrom base (serial table) P) : P.Ordered table := by
  have hs : P.Serial (·.Kept table Timeline.Ordered) (Sees table) := by
    refine Serial.of_reachable ?_ ?_ Serial.safe_call h
    · exact ((History.Holds.of_base hempty).seen .empty).kept
    · intro P u op v ha
      exact ha.2.1
  obtain ⟨t, created, hh, hj⟩ := hs.holds
  exact .of_holds hh hj

/-- The view of the last call, if this was a refresh that has succeeded. -/
def refreshed? (P : Pool) : Option Timeline :=
  P.tasks.getLast?.bind fun task =>
    match task.operation, task.result? with
    | .refresh, some (.ok .nothing, w) => some w
    | _, _ => none

/-- What a pool has refreshed last was returned by a refresh. -/
theorem returned_of_refreshed? {P : Pool} {w : Timeline} (h : P.refreshed? = some w) :
    P.Returned .refresh .nothing w := by
  obtain ⟨task, hlast, hw⟩ := Option.bind_eq_some_iff.1 h
  split at hw
  · rename_i hop hresult
    obtain rfl := Option.some.inj hw
    exact ⟨task, hlast, hop, hresult⟩
  · cases hw

/-- A call is made in calm where all calls have returned; an append goes on from the refresh before
it, and is not made without one. -/
def served (table : Table) (P : Pool) (op : Operation) (view : Timeline) : Pool :=
  match op with
  | .append instant details requestedAt =>
    match P.refreshed? with
    | some w => P.called .plain table (.append instant details requestedAt) w
    | none => P
  | op => P.called .plain table op view

/-- What comes of a call that is served is reachable. -/
theorem ReachableFrom.served {base : Storage.Objects} {table : Table} {P : Pool}
    (h : ReachableFrom base (serial table) P) (op : Operation) (view : Timeline) :
    ReachableFrom base (serial table) (P.served table op view) := by
  unfold Pool.served
  split
  · split
    · rename_i hw
      refine h.called fun hreturned => ⟨rfl, hreturned, ?_⟩
      intro _ _ _ _
      exact returned_of_refreshed? hw
    · exact h
  · rename_i hop
    refine h.called fun hreturned => ⟨rfl, hreturned, ?_⟩
    rintro instant details requestedAt rfl
    exact absurd rfl (hop instant details requestedAt)

/-- The marker of a compaction is stored in a table of another name. -/
def neighbour : Storage.Objects :=
  Storage.Objects.empty.insert (Table.markerAt ⟨"u", by decide, by decide⟩ ⟨"009"⟩)
    ⟨Marker.encode ⟨.requested ⟨"009"⟩ .compaction, .plan .empty, none⟩, 1⟩

/-- The neighbour has no object of the sample table. -/
theorem find?_neighbour (path : String) : neighbour.find? (Table.sample.place path) = none := by
  have hne : Table.sample.place path ≠ Table.markerAt ⟨"u", by decide, by decide⟩ ⟨"009"⟩ :=
    fun hp => absurd (Table.place_inj hp).1 (by decide)
  rw [neighbour, Storage.Objects.find?_insert, if_neg hne, Storage.Objects.find?_empty]

/-- What two sessions call in turn, each call with the one whose view it goes on from. The second
session appends a compaction, and then tries to append another one and an earlier delta commit;
the first one runs a cycle. -/
def dialogue : List (Operation × Nat) :=
  let now : Moment := ⟨0, 0, isMoment_zero⟩
  let config : Config := ⟨false, 1, .ofSeconds 3600⟩
  [(.createAt config ⟨"001"⟩ .empty now, 0), (.refresh, 1),
    (.append (.requested ⟨"002"⟩ .compaction) (.plan ⟨[⟨"001"⟩], []⟩) now, 1), (.refresh, 2),
    (.append (.requested ⟨"003"⟩ .compaction) (.plan .empty) now, 3), (.refresh, 4),
    (.append (.requested ⟨"0015"⟩ .deltaCommit) .empty now, 5), (.run config now, 0),
    (.createAt config ⟨"003"⟩ .empty now, 7), (.scheduleAt config ⟨"004"⟩ now, 6)]

/-- What has come of it. -/
def shared : Pool :=
  dialogue.foldl (fun P c => P.served .sample c.1 (P.viewOf c.2)) (on neighbour)

/-- The dialogue is a serial run beside the neighbour. -/
theorem reachable_shared : ReachableFrom neighbour (serial .sample) shared :=
  List.foldlRecOn dialogue _ .empty fun P h c _ => h.served c.1 (P.viewOf c.2)

/-- **A compaction is refused while another one is outstanding,** and so is an earlier timestamp.
Then the other session adopts the compaction, and there is room for a new one. -/
theorem ordered_of_dialogue :
    (∀ path, Table.sample.IsSearched path → neighbour.find? (Table.sample.place path) = none) ∧
      ReachableFrom neighbour (serial .sample) shared ∧
      (shared.reply? 4 = some (.error (.compactionPending ⟨"002"⟩ .requested)) ∧
        shared.reply? 6 = some (.error (.outOfOrder ⟨"0015"⟩ ⟨"002"⟩)) ∧
        shared.reply? 7 =
          some (.ok (.cycle (.retried ⟨⟨"002"⟩, .commit, .completed⟩))) ∧
        shared.reply? 9 = some (.ok (.compaction (some (.requested ⟨"004"⟩ .compaction)))) ∧
        (History.creations shared.history.acts).reverse.map (·.1) =
          ["001", "002", "003", "004"].map fun text => Table.sample.markerAt ⟨text⟩) ∧
      shared.Ordered .sample :=
  ⟨fun path _ => find?_neighbour path, reachable_shared, by decide +kernel,
    ordered (fun path _ => find?_neighbour path) reachable_shared⟩

end Pool
end CommitTimeline
