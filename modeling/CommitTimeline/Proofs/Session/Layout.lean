/-
# What a refresh accepts

A refresh passes over what is not named like a marker. Of everything else under the directory of
the markers it expects that it can be decoded, and that the name of its path gives its timestamp
(`Storage.Objects.Shows`); then its view has one entry for each of these objects
(`Session.exists_shown`). An object at the place of a timestamp is the entry of this timestamp.

The name of a path is its last segment only. So an object that lies deeper, in a directory inside
the one of the markers, is taken for the marker of its timestamp as well, also next to the one
at its place. The view has one entry for each timestamp, each of them the marker at its own
place, just if there is no such object (`Session.loads_exactly`).
-/

import CommitTimeline.Proofs.Session.Clock

namespace CommitTimeline
namespace Storage.Objects

/-- A marker lies at a path inside the table whose name gives its timestamp. -/
def Shows (s : Objects) (table : Table) (path : String) (m : Marker) : Prop :=
  Table.stem? (Table.fileName path.toList) = some m.timestamp.text.toList ∧
    ∃ o, s.find? (table.place path) = some o ∧ Marker.decode? o.data = some m

/-- Whatever is named like a marker lies in the directory of the markers itself, not deeper. -/
def IsFlat (s : Objects) (table : Table) : Prop :=
  ∀ path o, table.IsSearched path → s.find? (table.place path) = some o →
    ∃ timestamp : Timestamp, timestamp.IsSegment ∧ path = Table.markerPath timestamp.text

variable {s : Objects} {table : Table} {path : String} {m m' : Marker} {timestamp : Timestamp}

/-- One path shows at most one marker. -/
theorem Shows.eq (h : s.Shows table path m) (h' : s.Shows table path m') : m = m' := by
  obtain ⟨-, o, ho, hd⟩ := h
  obtain ⟨-, o', ho', hd'⟩ := h'
  obtain rfl := Option.some.inj (ho.symm.trans ho')
  exact Option.some.inj (hd.symm.trans hd')

/-- What is shown at the path of a timestamp has this timestamp. -/
theorem Shows.timestamp_eq (h : s.Shows table (Table.markerPath timestamp.text) m)
    (ht : timestamp.IsSegment) : m.timestamp = timestamp := by
  obtain ⟨hname, -⟩ := h
  rw [Table.stem?_markerPath ht] at hname
  exact congrArg Timestamp.mk (String.toList_inj.1 (Option.some.inj hname)).symm

/-- What is decoded at its own place is shown there. -/
theorem shows_markerPath {o : Object} (ho : s.find? (table.markerAt m.timestamp) = some o)
    (hd : Marker.decode? o.data = some m) :
    s.Shows table (Table.markerPath m.timestamp.text) m :=
  ⟨Table.stem?_markerPath (Timestamp.isSegment_of_isValid (Marker.isReadable_of_decode? hd).1),
    o, ho, hd⟩

section Listing

variable {found : List Meta} {markers : List Marker}

/-- The markers of a listing are those that are shown where a refresh looks. -/
theorem mem_shown (hfound : found.Perm (s.list (table.place Table.timelineDirectory)))
    (hall : List.Forall₂ (s.Shows table) (searched table found) markers) :
    m ∈ markers ↔ ∃ path, table.IsSearched path ∧ s.Shows table path m := by
  obtain ⟨hlength, hget⟩ := List.forall₂_iff_get.1 hall
  constructor
  · intro hm
    obtain ⟨i, hi, rfl⟩ := List.mem_iff_getElem.1 hm
    have hi' : i < (searched table found).length := hlength ▸ hi
    exact ⟨_, ((mem_searched hfound).1 (List.getElem_mem hi')).1, hget i hi' hi⟩
  · rintro ⟨path, hp, hshows⟩
    obtain ⟨-, o, ho, -⟩ := id hshows
    obtain ⟨i, hi, rfl⟩ := List.mem_iff_getElem.1 ((mem_searched hfound).2 ⟨hp, o, ho⟩)
    have hi' : i < markers.length := hlength ▸ hi
    rw [hshows.eq (hget i hi hi')]
    exact List.getElem_mem hi'

/-- A marker is shown wherever a refresh looks and finds something. -/
theorem exists_shows (hfound : found.Perm (s.list (table.place Table.timelineDirectory)))
    (hall : List.Forall₂ (s.Shows table) (searched table found) markers) {o : Object}
    (hp : table.IsSearched path) (ho : s.find? (table.place path) = some o) :
    ∃ m ∈ markers, s.Shows table path m := by
  obtain ⟨hlength, hget⟩ := List.forall₂_iff_get.1 hall
  obtain ⟨i, hi, rfl⟩ := List.mem_iff_getElem.1 ((mem_searched hfound).2 ⟨hp, o, ho⟩)
  exact ⟨_, List.getElem_mem (hlength ▸ hi), hget i hi (hlength ▸ hi)⟩

/-- **Where no object lies deeper, no timestamp comes twice:** each marker is shown at the path of
its own timestamp, and no path is listed twice. -/
theorem IsFlat.nodup (h : s.IsFlat table)
    (hfound : found.Perm (s.list (table.place Table.timelineDirectory)))
    (hall : List.Forall₂ (s.Shows table) (searched table found) markers) :
    (markers.map (·.timestamp)).Nodup := by
  have hlisted : List.Forall₂ (fun path m => path ∈ searched table found ∧ s.Shows table path m)
      (searched table found) markers :=
    (List.forall₂_and_left _ _).2 ⟨fun _ hp => hp, hall⟩
  have hplaces : searched table found =
      markers.map fun m => Table.markerPath m.timestamp.text := by
    rw [← List.forall₂_eq_eq_eq, List.forall₂_map_right_iff]
    refine hlisted.imp ?_
    rintro path m ⟨hp, hshows⟩
    obtain ⟨hp, o, ho⟩ := (mem_searched hfound).1 hp
    obtain ⟨timestamp, ht, rfl⟩ := h path o hp ho
    rw [hshows.timestamp_eq ht]
  have hnodup := nodup_searched hfound
  rw [hplaces] at hnodup
  refine List.Nodup.of_map (fun t : Timestamp => Table.markerPath t.text) ?_
  rw [List.map_map]
  exact hnodup

/-- **Where each marker is read once, and lies at its own place, no object lies deeper:** it
would be a second one for its timestamp. -/
theorem isFlat_of_nodup (hfound : found.Perm (s.list (table.place Table.timelineDirectory)))
    (hall : List.Forall₂ (s.Shows table) (searched table found) markers) (hnodup : markers.Nodup)
    (hplaces : ∀ m ∈ markers, ∃ o, s.find? (table.markerAt m.timestamp) = some o ∧
      Marker.decode? o.data = some m) : s.IsFlat table := by
  intro path o hp ho
  obtain ⟨hlength, hget⟩ := List.forall₂_iff_get.1 hall
  obtain ⟨i, hi, rfl⟩ := List.mem_iff_getElem.1 ((mem_searched hfound).2 ⟨hp, o, ho⟩)
  have hi' : i < markers.length := hlength ▸ hi
  obtain ⟨o', ho', hd⟩ := hplaces _ (List.getElem_mem hi')
  have hshows := shows_markerPath ho' hd
  obtain ⟨j, hj, hpath⟩ := List.mem_iff_getElem.1
    ((mem_searched hfound).2 ⟨table.isSearched_markerPath markers[i].timestamp, o', ho'⟩)
  have hj' : j < markers.length := hlength ▸ hj
  -- the marker at its own place is the same one, so it is at the same position in the listing
  have hsame : markers[j] = markers[i] := by
    rw [← hpath] at hshows
    exact (hget j hj hj').eq hshows
  obtain rfl := hnodup.getElem_inj_iff.1 hsame
  exact ⟨markers[j].timestamp,
    Timestamp.isSegment_of_isValid (Marker.isReadable_of_decode? hd).1, hpath⟩

end Listing
end Storage.Objects

namespace Session

variable {table : Table} {s s' : Storage.Objects} {v w : Timeline}

/-- A refresh that succeeds has changed nothing, and its view has one entry for each object that is
named like a marker. -/
theorem exists_shown {h h' : History} {task : Nat} {own : List Exchange}
    (hr : History.Runs task h own h') (hl : Loads table w own) :
    h'.objects = h.objects ∧ ∃ found markers,
      found.Perm (h.objects.list (table.place Table.timelineDirectory)) ∧
      List.Forall₂ (h.objects.Shows table) (Storage.Objects.searched table found) markers ∧
      w = .ofEntries markers := by
  obtain ⟨hidle, found, markers, hfound, hall, rfl⟩ := hl
  obtain ⟨hobjects, -, hleads⟩ := hr.leads_of_idle hidle.not_write
  refine ⟨hobjects, found, markers, (hleads _ hfound).1, hall.imp ?_, rfl⟩
  rintro path m ⟨hname, data, hread, hd⟩
  obtain ⟨version, hf⟩ := (hleads _ hread).get.2
  exact ⟨hname, _, hf, hd⟩

/-- **What a refresh accepts,** in whatever order storage lists, and wherever it fails. A refresh
changes no object, and one that fails leaves the view as it was. If it succeeds, the view has one
entry for each object that is named like a marker, and it is the marker that is shown there; and an
object at the place of a timestamp is the entry of this timestamp. The timestamps of the view
strictly increase, and its entries are the markers that lie at the places of their own timestamps,
just if no object that is named like a marker lies deeper. -/
theorem loads_exactly {r : Except Error Unit}
    (hl : ((refresh table).program v).Leads s (r, w) s') :
    s' = s ∧ match r with
      | .error _ => w = v
      | .ok () =>
        (∃ paths markers, paths.Nodup ∧
          (∀ path, path ∈ paths ↔
            table.IsSearched path ∧ ∃ o, s.find? (table.place path) = some o) ∧
          List.Forall₂ (s.Shows table) paths markers ∧ w = .ofEntries markers) ∧
        (∀ timestamp o, timestamp.IsSegment → s.find? (table.markerAt timestamp) = some o →
          ∃ m ∈ w.entries, m.timestamp = timestamp ∧ Marker.decode? o.data = some m) ∧
        ((w.IsStrict ∧ ∀ m, m ∈ w.entries ↔ ∃ o,
            s.find? (table.markerAt m.timestamp) = some o ∧ Marker.decode? o.data = some m) ↔
          s.IsFlat table) := by
  have hsafe : (refresh table).Safe (History.Step 0) (fun _ => True)
      (fun _ h' => h'.objects = s)
      (fun _ w h' => ∃ own, History.Runs 0 ⟨[], s⟩ own h' ∧ Loads table w own) v ⟨[], s⟩ :=
    safe_runs (h := ⟨[], s⟩) safe_refresh
  obtain ⟨h', rfl, hends⟩ := Program.Safe.of_leads hsafe rfl hl
  cases r with
  | error e => exact ⟨hends, Program.Yields.of_leads restores_refresh hl e rfl⟩
  | ok a =>
    obtain ⟨own, hr, hloads⟩ := hends
    obtain ⟨hobjects, found, markers, hfound, hall, rfl⟩ := exists_shown hr hloads
    change List.Perm found (s.list (table.place Table.timelineDirectory)) at hfound
    change List.Forall₂ (s.Shows table) (Storage.Objects.searched table found) markers at hall
    have hmem : ∀ m, m ∈ (Timeline.ofEntries markers).entries ↔ m ∈ markers :=
      fun m => Timeline.mem_ofEntries
    refine ⟨hobjects, ⟨_, markers, Storage.Objects.nodup_searched hfound,
      fun path => Storage.Objects.mem_searched hfound, hall, rfl⟩, ?_, ?_, ?_⟩
    · intro timestamp o ht ho
      obtain ⟨m, hm, hshows⟩ := Storage.Objects.exists_shows hfound hall
        (table.isSearched_markerPath timestamp) ho
      obtain ⟨-, o', ho', hd⟩ := id hshows
      obtain rfl : o = o' := Option.some.inj (ho.symm.trans ho')
      exact ⟨m, (hmem m).2 hm, hshows.timestamp_eq ht, hd⟩
    · rintro ⟨hstrict, hplaces⟩
      refine Storage.Objects.isFlat_of_nodup hfound hall ?_ fun m hm =>
        (hplaces m).1 ((hmem m).2 hm)
      exact (Timeline.perm_sort markers).nodup_iff.1 hstrict.nodup
    · intro hflat
      refine ⟨Timeline.isStrict_ofEntries (hflat.nodup hfound hall), fun m => ?_⟩
      rw [hmem, Storage.Objects.mem_shown hfound hall]
      constructor
      · rintro ⟨path, hp, hshows⟩
        obtain ⟨-, o, ho, hd⟩ := id hshows
        obtain ⟨timestamp, ht, rfl⟩ := hflat path o hp ho
        rw [hshows.timestamp_eq ht]
        exact ⟨o, ho, hd⟩
      · rintro ⟨o, ho, hd⟩
        exact ⟨_, table.isSearched_markerPath _, Storage.Objects.shows_markerPath ho hd⟩

/-- A requested delta commit. -/
def pendingMarker : Marker :=
  ⟨.requested ⟨"001"⟩ .deltaCommit, .empty, none⟩

/-- A compaction in flight. -/
def laterMarker : Marker :=
  ⟨⟨⟨"002"⟩, .compaction, .inflight⟩, .plan ⟨[⟨"001"⟩], []⟩, none⟩

/-- Two markers at their places, and next to them what a write has left under another name. -/
def littered : Storage.Objects :=
  let s := Storage.Objects.empty.insert (Table.sample.place ".timeline/002.json.tmp") ⟨[], 1⟩
  let s := s.insert (Table.sample.place ".timeline/002.json") ⟨laterMarker.encode, 2⟩
  s.insert (Table.sample.place ".timeline/001.json") ⟨pendingMarker.encode, 1⟩

/-- The littered directory has every marker at its own path. -/
theorem isFlat_littered : littered.IsFlat .sample := by
  intro path o hp ho
  rw [littered, Storage.Objects.find?_insert, Storage.Objects.find?_insert,
    Storage.Objects.find?_insert, Storage.Objects.find?_empty] at ho
  split at ho
  · rename_i hpath
    exact ⟨⟨"001"⟩, by decide, (Table.place_inj hpath).2⟩
  split at ho
  · rename_i hpath
    exact ⟨⟨"002"⟩, by decide, (Table.place_inj hpath).2⟩
  split at ho
  · -- a refresh does not look under this name
    rename_i hpath
    rw [(Table.place_inj hpath).2] at hp
    exact absurd hp.2 (by decide)
  · cases ho

/-- **The markers are loaded in the order of their timestamps,** though storage lists the other way
round, and what is named otherwise is passed over. -/
theorem loads_exactly_of_littered :
    ∃ (s' : Storage.Objects) (w : Timeline),
      ((refresh .sample).program .empty).Leads littered (.ok (), w) s' ∧
      (littered.list (Table.sample.place Table.timelineDirectory)).length = 3 ∧
      w.entries = [pendingMarker, laterMarker] ∧ littered.IsFlat .sample ∧ w.IsStrict ∧
      ∀ m, m ∈ w.entries ↔ ∃ o,
        littered.find? (Table.sample.markerAt m.timestamp) = some o ∧
          Marker.decode? o.data = some m := by
  let backwards : Calm :=
    { Calm.plain with arrange := List.reverse, perm := fun l => l.reverse_perm }
  have hl := backwards.leads_run ((refresh .sample).program .empty) ⟨littered, []⟩
  have hrun :
      (((refresh .sample).program .empty).run backwards.answer ⟨littered, []⟩).1.1.isOk = true ∧
      (((refresh .sample).program .empty).run backwards.answer ⟨littered, []⟩).1.2.entries =
        [pendingMarker, laterMarker] := by
    decide +kernel
  generalize ((refresh .sample).program .empty).run backwards.answer ⟨littered, []⟩ = x at hl hrun
  obtain ⟨⟨_ | _, w⟩, s'⟩ := x
  · cases hrun.1
  · obtain ⟨-, -, -, hplaces⟩ := loads_exactly hl
    obtain ⟨hstrict, hmem⟩ := hplaces.2 isFlat_littered
    exact ⟨s'.objects, w, hl, by decide +kernel, hrun.2, isFlat_littered, hstrict, hmem⟩

/-- A marker and its copy in a directory next to it are both loaded, so the view has its timestamp
twice. -/
theorem not_loads_exactly :
    ¬∀ (table : Table) (v w : Timeline) (s s' : Storage.Objects),
      ((refresh table).program v).Leads s (.ok (), w) s' →
        w.IsStrict ∧ ∀ m, m ∈ w.entries ↔ ∃ o,
          s.find? (table.markerAt m.timestamp) = some o ∧ Marker.decode? o.data = some m := by
  intro h
  let copy := Table.sample.place ".timeline/sub/001.json"
  let s := (Storage.Objects.empty.insert (Table.sample.place ".timeline/001.json")
    ⟨pendingMarker.encode, 1⟩).insert copy ⟨pendingMarker.encode, 1⟩
  have hl := Calm.plain.leads_run ((refresh .sample).program .empty) ⟨s, []⟩
  have hok :
      (((refresh .sample).program .empty).run Calm.plain.answer ⟨s, []⟩).1.1.isOk = true := by
    decide +kernel
  have hview : (((refresh .sample).program .empty).run Calm.plain.answer ⟨s, []⟩).1.2.entries =
      [pendingMarker, pendingMarker] := by
    decide +kernel
  generalize ((refresh .sample).program .empty).run Calm.plain.answer ⟨s, []⟩ = x at hl hok hview
  obtain ⟨⟨_ | _, w⟩, s'⟩ := x
  · cases hok
  · have hnodup := (h _ _ _ _ _ hl).1.nodup
    rw [show w.entries = _ from hview] at hnodup
    exact absurd hnodup (by decide)

end Session
end CommitTimeline
