/-
# Sessions one after the other

While nobody else asks, what is stored of a table are the markers of one timeline, each
at its place (`History.Holds`): at every path of the table where a refresh looks
(`Table.IsSearched`). A refresh that succeeds then has exactly this timeline for its view
(`History.Holds.eq_of_loads`), in whatever order storage lists. An append puts its marker
into it, and a transition moves an entry of it, whatever view the session has.
-/

import CommitTimeline.Proofs.Serial
import CommitTimeline.Proofs.Session.Stages
import CommitTimeline.Proofs.Timeline
import Mathlib.Data.List.Nodup

namespace CommitTimeline

namespace Storage.Objects

/-- What is found at a path is stored there. -/
theorem mem_entries_of_find? {s : Objects} {path : String} {o : Object}
    (h : s.find? path = some o) : (path, o) ∈ s.entries := by
  obtain ⟨l, l', he, -⟩ := List.lookup_eq_some_iff.1 h
  rw [he]
  exact List.mem_append_right l List.mem_cons_self

/-- What is stored at a path is found there. -/
theorem find?_of_mem_entries {s : Objects} {path : String} {o : Object}
    (h : (path, o) ∈ s.entries) : s.find? path = some o := by
  obtain ⟨l, l', hl⟩ := List.append_of_mem h
  refine List.lookup_eq_some_iff.2 ⟨l, l', hl, ?_⟩
  intro q hq
  have hsorted := s.sorted
  rw [hl, List.pairwise_append] at hsorted
  rw [bne_iff_ne]
  rintro rfl
  exact String.lt_irrefl _ (hsorted.2.2 q hq (q.1, o) List.mem_cons_self)

/-- What is found under a text is listed. -/
theorem describe_mem_list {s : Objects} {start path : String} {o : Object}
    (h : s.find? path = some o) (hp : start.toList.isPrefixOf path.toList = true) :
    o.describe path ∈ s.list start :=
  List.mem_map_of_mem (List.mem_filter.2 ⟨mem_entries_of_find? h, hp⟩)

/-- No path is listed twice. -/
theorem nodup_list (s : Objects) (start : String) : ((s.list start).map (·.path)).Nodup := by
  rw [list, List.map_map, List.Nodup, List.pairwise_map]
  refine (s.sorted.filter _).imp ?_
  rintro ⟨p, o⟩ ⟨q, u⟩ hlt rfl
  exact String.lt_irrefl _ hlt

/-- No path inside a table is listed twice, in whatever order storage lists. -/
theorem nodup_relative {s : Objects} {start : String} {found : List Meta}
    (h : found.Perm (s.list start)) (table : Table) :
    (found.filterMap fun m => table.relative? m.path).Nodup := by
  rw [show (found.filterMap fun m => table.relative? m.path) =
    (found.map (·.path)).filterMap table.relative? from
      (List.filterMap_map (f := Storage.Meta.path) (g := table.relative?)).symm]
  refine List.Nodup.filterMap ?_ ((h.map _).nodup_iff.2 (s.nodup_list start))
  intro p q r hp hq
  rw [← Table.place_of_relative? hp, Table.place_of_relative? hq]

end Storage.Objects

/-- Whatever the timestamp, its marker is named like one. -/
theorem Session.isMarker_markerPath (s : String) : isMarker (Table.markerPath s) = true := by
  have hp : (Table.markerPath s).toList.reverse =
      ".json".toList.reverse ++ (Table.timelineDirectory ++ s).toList.reverse := by
    simp [Table.markerPath]
  have hd : ∀ c ∈ ".json".toList.reverse, decide (c ≠ '/') = true :=
    List.all_eq_true.1 (by decide)
  rw [isMarker, Table.fileName, hp, List.takeWhile_append_of_pos hd, List.reverse_append,
    List.reverse_reverse, Table.stem?_append]
  rfl

/-- A refresh looks for a marker at this path of the table. -/
def Table.IsSearched (table : Table) (path : String) : Prop :=
  (table.place timelineDirectory).toList.isPrefixOf (table.place path).toList = true ∧
    Session.isMarker path = true

/-- A refresh searches the paths of markers. -/
theorem Table.isSearched_markerPath (table : Table) (timestamp : Timestamp) :
    table.IsSearched (markerPath timestamp.text) :=
  ⟨table.isPrefixOf_timelineDirectory timestamp, Session.isMarker_markerPath _⟩

namespace Storage.Objects

/-- Where a refresh looks, of what was listed. -/
def searched (table : Table) (found : List Meta) : List String :=
  (found.filterMap fun m => table.relative? m.path).filter Session.isMarker

variable {s : Objects} {table : Table} {path : String} {found : List Meta}

/-- A refresh looks at the paths of the table that are named like a marker and hold something. -/
theorem mem_searched (hfound : found.Perm (s.list (table.place Table.timelineDirectory))) :
    path ∈ searched table found ↔
      table.IsSearched path ∧ ∃ o, s.find? (table.place path) = some o := by
  rw [searched, List.mem_filter, List.mem_filterMap]
  constructor
  · rintro ⟨⟨m, hm, hr⟩, hmarker⟩
    obtain ⟨⟨p, o⟩, he, rfl⟩ := List.mem_map.1 (hfound.mem_iff.1 hm)
    obtain ⟨he, hp⟩ := List.mem_filter.1 he
    obtain rfl : table.place path = p := Table.place_of_relative? hr
    exact ⟨⟨hp, hmarker⟩, o, find?_of_mem_entries he⟩
  · rintro ⟨⟨hp, hmarker⟩, o, ho⟩
    exact ⟨⟨_, hfound.mem_iff.2 (describe_mem_list ho hp), table.relative?_place path⟩, hmarker⟩

/-- A refresh looks nowhere twice. -/
theorem nodup_searched (hfound : found.Perm (s.list (table.place Table.timelineDirectory))) :
    (searched table found).Nodup :=
  (nodup_relative hfound table).filter _

end Storage.Objects

/-- What is appended is later than all there is. -/
theorem Session.lt_of_refusal? {t : Timeline} {instant : Instant}
    (h : refusal? t instant = none) : ∀ e ∈ t.entries, e.timestamp < instant.timestamp := by
  unfold refusal? at h
  split at h
  · cases h
  split at h
  · rename_i last hlast
    split at h
    · cases h
    · rename_i hle
      intro e he
      exact Timestamp.lt_of_le_of_lt (Timeline.le_of_last?_all hlast he) (Timestamp.not_le.1 hle)
  · rename_i hlast
    intro e he
    rw [Timeline.entries_eq_nil hlast] at he
    cases he

/-- A compaction is appended only where none is outstanding. -/
theorem Session.not_isOutstanding_of_refusal? {t : Timeline} {instant : Instant}
    (h : refusal? t instant = none) (hc : instant.action = .compaction) :
    ∀ e ∈ t.entries, ¬e.IsOutstanding := by
  intro e he
  unfold refusal? at h
  split at h
  · cases h
  split at h
  · split at h
    · cases h
    · rw [Option.map_eq_none_iff] at h
      exact Timeline.not_isOutstanding_of_pendingCompaction? h he
  · rename_i hlast
    rw [Timeline.entries_eq_nil hlast] at he
    cases he

/-- While nobody else asks, a marker is created where nothing is, and only this object changes. -/
theorem Session.Creates.of_runs {task : Nat} {h h' : History} {table : Table} {m : Marker}
    {own : List Exchange} (hc : Session.Creates table m own) (hr : History.Runs task h own h') :
    h.objects.find? (table.markerAt m.timestamp) = none ∧
    (∃ version,
      h'.objects = h.objects.insert (table.markerAt m.timestamp) ⟨m.encode, version⟩) ∧
    History.creations h'.acts =
      (table.markerAt m.timestamp, m.encode) :: History.creations h.acts := by
  obtain ⟨version, rfl⟩ := hc
  cases hr with
  | cons hr hs =>
    cases hr
    obtain ⟨hallows, hobjects⟩ := hs.leads.stored
    refine ⟨?_, ⟨_, hobjects⟩, hs.creations⟩
    cases hf : h.objects.find? (table.markerAt m.timestamp) with
    | none => rfl
    | some o =>
      rw [hf] at hallows
      cases hallows

/-- While nobody else asks, what is moved is the marker that lies at the place of the instant, and
only this object changes. -/
theorem Session.Moves.of_runs {task : Nat} {h h' : History} {table : Table} {instant : Instant}
    {target : State} {details : Option Details} {current m : Marker} {own : List Exchange}
    (hm : Session.Moves table instant target details current m own)
    (hr : History.Runs task h own h') :
    (∃ data version, h.objects.find? (table.markerAt instant.timestamp) = some ⟨data, version⟩ ∧
      Marker.decode? data = some current) ∧
    (∃ version,
      h'.objects = h.objects.insert (table.markerAt m.timestamp) ⟨m.encode, version⟩) ∧
    History.creations h'.acts = History.creations h.acts := by
  have htime := hm.timestamp
  obtain ⟨known, data, version, hd, rfl⟩ := hm.exchanges
  have hidle : Session.Idle [Exchange.read (table.markerAt instant.timestamp) data,
      .described (table.markerAt instant.timestamp) known] :=
    (Session.idle_nil.cons_storage rfl).cons_storage rfl
  cases hr with
  | cons hr hs =>
    obtain ⟨hsame, hcreations, hreads⟩ := hr.leads_of_idle hidle.not_write
    obtain ⟨-, version', hf⟩ := (hreads _ List.mem_cons_self).get
    have hobjects := hs.leads.stored.2
    rw [hsame, ← htime] at hobjects
    refine ⟨⟨data, version', hf, hd⟩, ⟨_, hobjects⟩, ?_⟩
    rw [hs.creations]
    exact hcreations

namespace History

/-- A call that writes nothing unless it gives a result keeps until then whatever nobody loses
without writing. -/
theorem safe_runs_of_idle {α : Type} {c : Call α} {I : History → Prop} {task : Nat} {h : History}
    {v : Timeline} {gives : α → Timeline → List Exchange → Prop}
    (hI : ∀ h' own, Runs task h own h' → Session.Idle own → I h')
    (hc : c.Safe Alone Session.Idle (fun _ => Session.Idle) gives v []) :
    c.Safe (Step task) I (fun _ => I) (fun a w h' => ∃ own, Runs task h own h' ∧ gives a w own)
      v h := by
  refine (hc.runs task h).mono ?_ ?_ fun _ _ _ hg => hg
  · rintro h' ⟨own, hr, hi⟩
    exact hI h' own hr hi
  · rintro _ h' ⟨own, hr, hi⟩
    exact hI h' own hr hi

/-- What is stored of a table are the markers of a timeline, each at its place, and what was
created are the given markers, the latest first. -/
structure Holds (h : History) (table : Table) (created : List Marker) (t : Timeline) : Prop where
  strict : t.IsStrict
  stored : ∀ e ∈ t.entries, ∃ version,
    h.objects.find? (table.markerAt e.timestamp) = some ⟨e.encode, version⟩
  only : ∀ path o, table.IsSearched path → h.objects.find? (table.place path) = some o →
    ∃ e ∈ t.entries, path = Table.markerPath e.timestamp.text
  created : creations h.acts = created.map fun m => (table.markerAt m.timestamp, m.encode)

namespace Holds

variable {h h' : History} {table : Table} {created created' : List Marker} {t v w : Timeline}
  {task : Nat} {own : List Exchange} {m : Marker}

/-- Where nothing is stored of the table, the empty timeline is. -/
theorem of_base {base : Storage.Objects}
    (hempty : ∀ path, table.IsSearched path → base.find? (table.place path) = none) :
    Holds ⟨[], base⟩ table [] .empty where
  strict := Timeline.isStrict_empty
  stored := by
    intro e he
    cases he
  only := by
    intro path o hp ho
    rw [hempty path hp] at ho
    cases ho
  created := rfl

/-- All that is stored are the markers of a timeline. -/
theorem of_entries (ht : t.IsStrict)
    (hstored : (h.objects.entries.map fun x => (x.1, x.2.data)) =
      t.entries.map fun e => (table.markerAt e.timestamp, e.encode))
    (hcreated : creations h.acts = created.map fun m => (table.markerAt m.timestamp, m.encode)) :
    h.Holds table created t where
  strict := ht
  stored := by
    intro e he
    have hm := List.mem_map_of_mem (f := fun e : Entry => (table.markerAt e.timestamp, e.encode)) he
    rw [← hstored] at hm
    obtain ⟨⟨path, data, version⟩, ho, heq⟩ := List.mem_map.1 hm
    obtain ⟨rfl, rfl⟩ := Prod.mk.inj heq
    exact ⟨version, Storage.Objects.find?_of_mem_entries ho⟩
  only := by
    intro path o _ ho
    have hm := List.mem_map_of_mem (f := fun x : String × Storage.Object => (x.1, x.2.data))
      (Storage.Objects.mem_entries_of_find? ho)
    rw [hstored] at hm
    obtain ⟨e, he, heq⟩ := List.mem_map.1 hm
    exact ⟨e, he, (Table.place_inj (Prod.mk.inj heq).1).2.symm⟩
  created := hcreated

/-- What is found where a refresh looks is the marker of an entry, at its place. -/
theorem exists_entry (hh : h.Holds table created t) {path : String} {data : Bytes} {version : Nat}
    (hp : table.IsSearched path)
    (hf : h.objects.find? (table.place path) = some ⟨data, version⟩) :
    ∃ e ∈ t.entries, path = Table.markerPath e.timestamp.text ∧ data = e.encode := by
  obtain ⟨e, he, rfl⟩ := hh.only path _ hp hf
  obtain ⟨version', hs⟩ := hh.stored e he
  rw [Table.markerAt, hf, Option.some.injEq, Storage.Object.mk.injEq] at hs
  exact ⟨e, he, rfl, hs.1⟩

/-- What is read where a refresh looks and decoded is an entry. -/
theorem exists_entry_of_read (hh : h.Holds table created t) {path : String} {data : Bytes}
    {s : Storage.Objects} (hp : table.IsSearched path)
    (hr : Exchange.Leads h.objects (.read (table.place path) data) s)
    (hd : Marker.decode? data = some m) :
    m ∈ t.entries ∧ path = Table.markerPath m.timestamp.text := by
  obtain ⟨version, hf⟩ := hr.get.2
  obtain ⟨e, he, hpath, rfl⟩ := hh.exists_entry hp hf
  obtain rfl := Marker.eq_of_decode?_encode hd
  exact ⟨he, hpath⟩

/-- What is stored is one timeline. -/
theorem unique (hh : h.Holds table created t) (hh' : h.Holds table created' v) : t = v := by
  refine hh'.strict.ext hh.strict ?_
  have hsub : ∀ {created created' t v}, h.Holds table created t → h.Holds table created' v →
      ∀ e ∈ t.entries, e ∈ v.entries := by
    intro created created' t v hh hh' e he
    obtain ⟨version, hf⟩ := hh.stored e he
    obtain ⟨e', he', -, heq⟩ := hh'.exists_entry (table.isSearched_markerPath e.timestamp) hf
    exact Marker.encode_injective heq ▸ he'
  exact fun e => ⟨hsub hh hh' e, hsub hh' hh e⟩

/-- What does not write changes nothing. -/
theorem of_idle (hh : h.Holds table created t) (hr : Runs task h own h')
    (hi : ∀ e ∈ own, e.write? = none) : h'.Holds table created t := by
  obtain ⟨hobjects, hcreations, -⟩ := hr.leads_of_idle hi
  constructor
  · exact hh.strict
  · rw [hobjects]
    exact hh.stored
  · rw [hobjects]
    exact hh.only
  · rw [hcreations]
    exact hh.created

/-- A marker that is written to its place is put into the timeline. -/
theorem write (hh : h.Holds table created t) {version : Nat}
    (hobjects : h'.objects = h.objects.insert (table.markerAt m.timestamp) ⟨m.encode, version⟩)
    (hcreations : creations h'.acts =
      created'.map fun m => (table.markerAt m.timestamp, m.encode)) :
    h'.Holds table created' (t.upsert m) where
  strict := hh.strict.upsert m
  stored := by
    intro e he
    rw [hobjects, Storage.Objects.find?_insert]
    rcases (Timeline.mem_upsert_iff hh.strict).1 he with rfl | ⟨he, hne⟩
    · exact ⟨version, if_pos rfl⟩
    · rw [if_neg fun hp => hne (Table.markerAt_inj hp).2]
      exact hh.stored e he
  only := by
    intro path o hsearched ho
    rw [hobjects, Storage.Objects.find?_insert] at ho
    split at ho
    · rename_i hp
      exact ⟨m, Timeline.mem_upsert_self t m, (Table.place_inj hp).2⟩
    · rename_i hp
      obtain ⟨e, he, rfl⟩ := hh.only path o hsearched ho
      refine ⟨e, (Timeline.mem_upsert_iff hh.strict).2 (.inr ⟨he, ?_⟩), rfl⟩
      intro ht
      exact hp (congrArg table.markerAt ht)
  created := hcreations

/-- **The view of a refresh is what is stored.** -/
theorem eq_of_loads (hh : h.Holds table created t) (hr : Runs task h own h')
    (hl : Session.Loads table w own) : w = t := by
  obtain ⟨hidle, found, markers, hfound, hall, rfl⟩ := hl
  obtain ⟨-, -, hleads⟩ := hr.leads_of_idle hidle.not_write
  have hperm : found.Perm (h.objects.list (table.place Table.timelineDirectory)) :=
    (hleads _ hfound).1
  have hread : List.Forall₂ (fun path m => m ∈ t.entries ∧
      path = Table.markerPath m.timestamp.text) (Storage.Objects.searched table found) markers := by
    have hsearched : ∀ path ∈ Storage.Objects.searched table found, table.IsSearched path :=
      fun path hp => ((Storage.Objects.mem_searched hperm).1 hp).1
    refine ((List.forall₂_and_left _ _).2 ⟨hsearched, hall⟩).imp ?_
    rintro path m ⟨hp, -, data, hr, hd⟩
    exact hh.exists_entry_of_read hp (hleads _ hr) hd
  have hpaths : Storage.Objects.searched table found =
      markers.map fun m => Table.markerPath m.timestamp.text := by
    rw [← List.forall₂_eq_eq_eq, List.forall₂_map_right_iff]
    exact hread.imp fun _ _ hm => hm.2
  have hmem : ∀ m ∈ markers, m ∈ t.entries :=
    ((List.forall₂_and_left markers _).1 (List.Forall₂.flip hread)).1
  refine Timeline.ofEntries_eq hh.strict ?_
  have hmarkers : markers.Nodup :=
    List.Nodup.of_map _ (hpaths ▸ Storage.Objects.nodup_searched hperm)
  rw [List.perm_ext_iff_of_nodup hmarkers hh.strict.nodup]
  intro m
  constructor
  · exact hmem m
  · intro hm
    obtain ⟨version, hf⟩ := hh.stored m hm
    have hpath := (Storage.Objects.mem_searched hperm).2
      ⟨table.isSearched_markerPath m.timestamp, _, hf⟩
    rw [hpaths, List.mem_map] at hpath
    obtain ⟨n, hn, hp⟩ := hpath
    have ht : n.timestamp.text = m.timestamp.text := Table.markerPath_inj hp
    rw [← Timeline.eq_of_timestamp_eq hh.strict (hmem n hn) hm (congrArg Timestamp.mk ht)]
    exact hn

/-- A call that writes nothing unless it gives a result changes nothing until then. -/
theorem safe_runs {α : Type} {c : Call α} {gives : α → Timeline → List Exchange → Prop}
    (hh : h.Holds table created t)
    (hc : c.Safe Alone Session.Idle (fun _ => Session.Idle) gives v []) :
    c.Safe (Step task) (fun h' => h'.Holds table created t) (fun _ h' => h'.Holds table created t)
      (fun a w h' => ∃ own, Runs task h own h' ∧ gives a w own) v h :=
  safe_runs_of_idle (fun _ _ hr hi => hh.of_idle hr hi.not_write) hc

/-- **A refresh changes nothing,** and its view is what is stored. -/
theorem safe_refresh (hh : h.Holds table created t) :
    (Session.refresh table).Safe (Step task) (fun h' => h'.Holds table created t)
      (fun _ h' => h'.Holds table created t)
      (fun _ w h' => w = t ∧ h'.Holds table created t) v h := by
  refine (hh.safe_runs Session.safe_refresh).imp ?_
  rintro _ w h' ⟨own, hr, hl⟩
  exact ⟨hh.eq_of_loads hr hl, hh.of_idle hr hl.1.not_write⟩

/-- A marker that is created is put into the timeline, at a timestamp of its own. -/
theorem of_creates (hh : h.Holds table created t) (hr : Runs task h own h')
    (hc : Session.Creates table m own) :
    (∀ e ∈ t.entries, e.timestamp ≠ m.timestamp) ∧
      h'.Holds table (m :: created) (t.upsert m) := by
  obtain ⟨hnone, ⟨version, hobjects⟩, hcreations⟩ := hc.of_runs hr
  constructor
  · intro e he ht
    obtain ⟨version', hf⟩ := hh.stored e he
    rw [ht, hnone] at hf
    cases hf
  · refine hh.write hobjects ?_
    rw [hcreations, hh.created]
    rfl

/-- A marker that is moved is that of an entry. -/
theorem of_moves (hh : h.Holds table created t) (hr : Runs task h own h') {instant : Instant}
    {target : State} {details : Option Details} {current : Marker}
    (hm : Session.Moves table instant target details current m own) :
    current ∈ t.entries ∧ current.instant = instant ∧ m = current.after target details ∧
      h'.Holds table created (t.upsert m) := by
  obtain ⟨⟨data, version, hf, hd⟩, ⟨version', hobjects⟩, hcreations⟩ := hm.of_runs hr
  obtain ⟨e, he, hp, rfl⟩ := hh.exists_entry (table.isSearched_markerPath instant.timestamp) hf
  obtain rfl := Marker.eq_of_decode?_encode hd
  have ht : current.timestamp = instant.timestamp :=
    congrArg Timestamp.mk (Table.markerPath_inj hp).symm
  exact ⟨he, hm.instant_eq ht, hm.eq_after ht, hh.write hobjects (hcreations.trans hh.created)⟩

/-- **An append puts its marker into the timeline,** or it fails and changes nothing. -/
theorem safe_append (hh : h.Holds table created t) (m : Marker) :
    (Session.append table m.instant m.details m.requestedAt).Safe (Step task)
      (fun h' => h'.Holds table created t) (fun _ h' => h'.Holds table created t)
      (fun i w h' => i = m.instant ∧ Session.refusal? v m.instant = none ∧ w = v.upsert m ∧
        h'.Holds table (m :: created) (t.upsert m)) v h := by
  refine (hh.safe_runs (Session.safe_append m.instant m.details m.requestedAt)).imp ?_
  rintro i w h' ⟨own, hr, rfl, hrefusal, rfl, hc⟩
  exact ⟨rfl, hrefusal, rfl, (hh.of_creates hr hc).2⟩

/-- **A transition moves an entry of the timeline,** or it fails and changes nothing. -/
theorem safe_transition (hh : h.Holds table created t) (instant : Instant) (target : State)
    (details : Option Details) :
    (Session.transition table instant target details).Safe (Step task)
      (fun h' => h'.Holds table created t) (fun _ h' => h'.Holds table created t)
      (fun i w h' => i = instant.moved target ∧ instant.state.Leads target ∧ ∃ e ∈ t.entries,
        e.instant = instant ∧ w = v.upsert (e.after target details) ∧
        h'.Holds table created (t.upsert (e.after target details))) v h := by
  refine (hh.safe_runs (Session.safe_transition instant target details)).imp ?_
  rintro i w h' ⟨own, hr, rfl, hleads, e, m, rfl, hm⟩
  obtain ⟨he, hi, rfl, hg⟩ := hh.of_moves hr hm
  exact ⟨rfl, hleads, e, he, hi, rfl, hg⟩

end Holds
end History
end CommitTimeline
