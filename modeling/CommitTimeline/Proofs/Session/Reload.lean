/-
# What a session finds when it opens

A refresh looks for markers at the paths of a table that are named like one
(`Table.IsSearched`), and `Storage.Objects.marker?` is what it reads there. In calm it
succeeds just if it can read a marker everywhere it looks (`Storage.Objects.IsLoadable`),
and its view is made of these markers (`Timeline.IsReadFrom`), whoever has stored them.

Where every object of a table is a readable marker at its own place, the stored markers
are those of one strict timeline (`Timeline.IsStoredIn`), which is the view of every
session that opens (`Timeline.IsStoredIn.load`). A transition in calm of an instant that is
stored moves its entry and touches nothing else (`Timeline.IsStoredIn.gives_transition`).
-/

import CommitTimeline.Proofs.Program.Calm
import CommitTimeline.Proofs.Session.Serial

namespace CommitTimeline

/-- The token of an object names its version. -/
theorem Storage.Object.isNamedBy_token (o : Object) : o.isNamedBy o.token = true := by
  rw [isNamedBy, token, String.toList_ofList, Text.integer?_numeral]
  exact decide_eq_true rfl

namespace Storage.Objects

/-- The marker that can be read at a path of a table, if its name gives the timestamp. -/
def marker? (s : Objects) (table : Table) (path : String) : Option Marker :=
  match Table.fault? path with
  | some _ => none
  | none => (s.find? (table.place path)).bind fun o =>
      (Marker.decode? o.data).filter fun m =>
        Table.stem? (Table.fileName path.toList) = some m.timestamp.text.toList

/-- A marker can be read wherever a refresh looks and finds something. -/
def IsLoadable (s : Objects) (table : Table) : Prop :=
  ∀ path o, table.IsSearched path → s.find? (table.place path) = some o →
    ∃ m, s.marker? table path = some m

variable {s : Objects} {table : Table} {path : String} {m : Marker}

/-- A write under the condition of the version that is stored takes place. -/
theorem put_token {o : Object} (h : s.find? path = some o) (data : Bytes) :
    s.put path data (.version o.token) =
      (.stored (Object.token ⟨data, o.version + 1⟩), s.insert path ⟨data, o.version + 1⟩) := by
  rw [put, h]
  exact if_pos o.isNamedBy_token

/-- A marker is shown at a path just if an object of its name is stored there that is read as it. -/
theorem marker?_eq_some : s.marker? table path = some m ↔ Table.fault? path = none ∧
    Table.stem? (Table.fileName path.toList) = some m.timestamp.text.toList ∧
    ∃ o, s.find? (table.place path) = some o ∧ Marker.decode? o.data = some m := by
  unfold marker?
  split
  · rename_i h
    simp [h]
  · rename_i h
    simp only [h, Option.bind_eq_some_iff, Option.filter_eq_some_iff, decide_eq_true_eq, true_and]
    constructor
    · rintro ⟨o, ho, hd, hn⟩
      exact ⟨hn, o, ho, hd⟩
    · rintro ⟨hn, o, ho, hd⟩
      exact ⟨o, ho, hd, hn⟩

/-- What is decoded at its own place is the marker there. -/
theorem marker?_markerPath {o : Object} (hf : s.find? (table.markerAt m.timestamp) = some o)
    (hd : Marker.decode? o.data = some m) :
    s.marker? table (Table.markerPath m.timestamp.text) = some m := by
  have hm := (Marker.isReadable_of_decode? hd).1
  refine marker?_eq_some.2 ⟨Table.fault?_markerPath hm, Table.stem?_markerPath ?_, o, hf, hd⟩
  exact fun hc => (Table.sound_of_isAlphanum (List.all_eq_true.1 hm.2 _ hc)).1 rfl

end Storage.Objects

namespace Timeline

variable {s : Storage.Objects} {table : Table} {t w : Timeline} {e m : Marker}

/-- The timeline is made of the markers that a refresh reads, in the order of a listing. -/
def IsReadFrom (t : Timeline) (table : Table) (s : Storage.Objects) : Prop :=
  ∃ found, found.Perm (s.list (table.place Table.timelineDirectory)) ∧
    t = .ofEntries ((Storage.Objects.searched table found).filterMap (s.marker? table))

/-- A view that is read from storage has the markers that are shown at the searched paths. -/
theorem IsReadFrom.mem_iff (h : t.IsReadFrom table s) :
    m ∈ t.entries ↔ ∃ path, table.IsSearched path ∧ s.marker? table path = some m := by
  obtain ⟨found, hfound, rfl⟩ := h
  rw [mem_ofEntries, List.mem_filterMap]
  constructor
  · rintro ⟨path, hp, hm⟩
    exact ⟨path, ((Storage.Objects.mem_searched hfound).1 hp).1, hm⟩
  · rintro ⟨path, hp, hm⟩
    obtain ⟨-, -, o, ho, -⟩ := Storage.Objects.marker?_eq_some.1 hm
    exact ⟨path, (Storage.Objects.mem_searched hfound).2 ⟨hp, o, ho⟩, hm⟩

/-- Where markers have places of their own, those that are read lie where a refresh looks. -/
theorem map_searched {found : List Storage.Meta}
    (hfound : found.Perm (s.list (table.place Table.timelineDirectory)))
    (h : ∀ path o, table.IsSearched path → s.find? (table.place path) = some o →
      ∃ m, s.marker? table path = some m ∧ path = Table.markerPath m.timestamp.text) :
    ((Storage.Objects.searched table found).filterMap (s.marker? table)).map
      (fun m => Table.markerPath m.timestamp.text) = Storage.Objects.searched table found := by
  rw [List.map_filterMap, List.filterMap_congr (g := some), List.filterMap_some]
  intro path hp
  obtain ⟨hp, o, ho⟩ := (Storage.Objects.mem_searched hfound).1 hp
  obtain ⟨m, hm, hpath⟩ := h path o hp ho
  rw [hm, Option.map_some, ← hpath]

/-- What is stored of a table are the markers of the timeline, each at its place, and they
can be read. -/
structure IsStoredIn (t : Timeline) (table : Table) (s : Storage.Objects) : Prop where
  strict : t.IsStrict
  stored : ∀ e ∈ t.entries, ∃ o,
    s.find? (table.markerAt e.timestamp) = some o ∧ Marker.decode? o.data = some e
  only : ∀ path o, table.IsSearched path → s.find? (table.place path) = some o →
    ∃ e ∈ t.entries, path = Table.markerPath e.timestamp.text

namespace IsStoredIn

/-- Of a stored timeline just the entries are shown, each one at its own path. -/
theorem marker?_iff (h : t.IsStoredIn table s) {path : String} (hp : table.IsSearched path) :
    s.marker? table path = some e ↔ e ∈ t.entries ∧ path = Table.markerPath e.timestamp.text := by
  have hshow : ∀ e ∈ t.entries, s.marker? table (Table.markerPath e.timestamp.text) = some e := by
    intro e he
    obtain ⟨o, ho, hd⟩ := h.stored e he
    exact Storage.Objects.marker?_markerPath ho hd
  constructor
  · intro hm
    obtain ⟨-, -, o, ho, -⟩ := Storage.Objects.marker?_eq_some.1 hm
    obtain ⟨x, hx, rfl⟩ := h.only path o hp ho
    rw [hshow x hx] at hm
    obtain rfl := Option.some.inj hm
    exact ⟨hx, rfl⟩
  · rintro ⟨he, rfl⟩
    exact hshow e he

/-- A stored timeline can be loaded. -/
theorem isLoadable (h : t.IsStoredIn table s) : s.IsLoadable table := by
  intro path o hp ho
  obtain ⟨e, he, hpath⟩ := h.only path o hp ho
  exact ⟨e, (h.marker?_iff hp).2 ⟨he, hpath⟩⟩

/-- **What is stored is what is read,** in whatever order storage lists. -/
theorem eq_of_isReadFrom (h : t.IsStoredIn table s) (hw : w.IsReadFrom table s) : w = t := by
  have hmem : ∀ m, m ∈ w.entries ↔ m ∈ t.entries := by
    intro m
    rw [hw.mem_iff]
    constructor
    · rintro ⟨path, hp, hm⟩
      exact ((h.marker?_iff hp).1 hm).1
    · intro hm
      have hp := table.isSearched_markerPath m.timestamp
      exact ⟨_, hp, (h.marker?_iff hp).2 ⟨hm, rfl⟩⟩
  obtain ⟨found, hfound, rfl⟩ := hw
  have hnodup := Storage.Objects.nodup_searched hfound
  rw [← map_searched hfound fun path o hp ho => by
    obtain ⟨m, hm⟩ := h.isLoadable path o hp ho
    exact ⟨m, hm, ((h.marker?_iff hp).1 hm).2⟩] at hnodup
  replace hnodup := List.Nodup.of_map _ hnodup
  refine ofEntries_eq h.strict ?_
  rw [List.perm_ext_iff_of_nodup hnodup h.strict.nodup]
  intro m
  rw [← mem_ofEntries, hmem]

/-- Where every object is a readable marker at its own place, a timeline is stored. -/
theorem exists_of_places (h : ∀ path o, table.IsSearched path →
      s.find? (table.place path) = some o →
      ∃ m, Marker.decode? o.data = some m ∧ path = Table.markerPath m.timestamp.text) :
    ∃ t : Timeline, t.IsStoredIn table s := by
  have hfound := List.Perm.refl (s.list (table.place Table.timelineDirectory))
  have hmarker : ∀ path o, table.IsSearched path → s.find? (table.place path) = some o →
      ∃ m, s.marker? table path = some m ∧ path = Table.markerPath m.timestamp.text := by
    intro path o hp ho
    obtain ⟨m, hd, rfl⟩ := h path o hp ho
    exact ⟨m, Storage.Objects.marker?_markerPath ho hd, rfl⟩
  obtain ⟨t, ht⟩ : ∃ t, t = ofEntries ((Storage.Objects.searched table
      (s.list (table.place Table.timelineDirectory))).filterMap (s.marker? table)) := ⟨_, rfl⟩
  have hread : t.IsReadFrom table s := ⟨_, hfound, ht⟩
  refine ⟨t, ?_, ?_, ?_⟩
  · have hnodup := Storage.Objects.nodup_searched hfound
    rw [← map_searched hfound hmarker] at hnodup
    rw [ht]
    refine isStrict_ofEntries
      (List.Nodup.of_map (fun t : Timestamp => Table.markerPath t.text) ?_)
    rw [List.map_map]
    exact hnodup
  · intro e he
    obtain ⟨path, hp, hm⟩ := hread.mem_iff.1 he
    obtain ⟨-, -, o, ho, hd⟩ := Storage.Objects.marker?_eq_some.1 hm
    obtain ⟨m, hm', rfl⟩ := hmarker path o hp ho
    rw [hm] at hm'
    obtain rfl := Option.some.inj hm'
    exact ⟨o, ho, hd⟩
  · intro path o hp ho
    obtain ⟨m, hm, hpath⟩ := hmarker path o hp ho
    exact ⟨m, hread.mem_iff.2 ⟨path, hp, hm⟩, hpath⟩

/-- A readable marker that is written to its place is put into the timeline. -/
theorem write (h : t.IsStoredIn table s) (hm : m.IsReadable) (version : Nat) :
    (t.upsert m).IsStoredIn table
      (s.insert (table.markerAt m.timestamp) ⟨m.encode, version⟩) where
  strict := h.strict.upsert m
  stored := by
    intro e he
    rw [Storage.Objects.find?_insert]
    rcases (mem_upsert_iff h.strict).1 he with rfl | ⟨he, hne⟩
    · exact ⟨_, if_pos rfl, by rw [Marker.decode?_encode, if_pos hm]⟩
    · rw [if_neg fun hp => hne (Table.markerAt_inj hp).2]
      exact h.stored e he
  only := by
    intro path o hp ho
    rw [Storage.Objects.find?_insert] at ho
    split at ho
    · rename_i hpath
      exact ⟨m, mem_upsert_self t m, (Table.place_inj hpath).2⟩
    · rename_i hpath
      obtain ⟨e, he, rfl⟩ := h.only path o hp ho
      refine ⟨e, (mem_upsert_iff h.strict).2 (.inr ⟨he, ?_⟩), rfl⟩
      intro ht
      exact hpath (congrArg table.markerAt ht)

end IsStoredIn

end Timeline

namespace Calm

open Session

variable {o : Calm} {s : Scene} {table : Table} {v t : Timeline}

/-- One marker is read and decoded, or there is none. -/
theorem safe_readMarker {path : String} :
    (readMarker table path).Safe o.Step (fun _ => True)
      (fun _ _ => s.objects.marker? table path = none)
      (fun m w s' => w = v ∧ s' = s ∧ Table.fault? path = none ∧
        ∃ u, s.objects.find? (table.place path) = some u ∧ Marker.decode? u.data = some m) v s := by
  unfold readMarker
  refine Call.Safe.bind (g := fun data w s' => w = v ∧ s' = s ∧ Table.fault? path = none ∧
    ∃ u, s.objects.find? (table.place path) = some u ∧ u.data = data) ?_ ?_
  · refine safe_checked (r := .get (table.place path)) trivial ?_ ?_
    · intro fault hpath
      rw [Storage.Objects.marker?, hpath]
    · intro hpath
      cases hu : s.objects.find? (table.place path) with
      | none =>
        simp only [answer, storage, Storage.Objects.answer, hu]
        rw [Storage.Objects.marker?, hpath, hu]
        rfl
      | some u =>
        simp only [answer, storage, Storage.Objects.answer, hu]
        exact ⟨trivial, trivial, hpath, u, rfl, rfl⟩
  · rintro data w s' ⟨rfl, rfl, hpath, u, hu, rfl⟩
    split
    · rename_i m hd
      exact Call.safe_pure ⟨rfl, rfl, hpath, u, hu, hd⟩
    · rename_i hd
      refine Call.safe_throw ?_
      rw [Storage.Objects.marker?, hpath, hu, Option.bind_some, hd]
      rfl

/-- Where the next path has a marker, the others are read; where it has none, that is all. -/
theorem safe_readMarkers (paths : List String) :
    ∀ {v : Timeline}, (readMarkers table paths).Safe o.Step (fun _ => True)
      (fun _ _ => ∃ path ∈ paths.filter isMarker, s.objects.marker? table path = none)
      (fun markers w s' => w = v ∧ s' = s ∧
        (∀ path ∈ paths.filter isMarker, ∃ m, s.objects.marker? table path = some m) ∧
        markers = (paths.filter isMarker).filterMap (s.objects.marker? table)) v s := by
  induction paths with
  | nil =>
    intro v
    refine Call.safe_pure ⟨rfl, rfl, ?_, rfl⟩
    intro path hp
    cases hp
  | cons path paths ih =>
    intro v
    unfold readMarkers
    split
    · rename_i hn
      have hp : isMarker path = false := by rw [isMarker, hn]; rfl
      rw [List.filter_cons_of_neg (by rw [hp]; decide)]
      exact ih
    · rename_i stem hn
      have hp : isMarker path = true := by rw [isMarker, hn]; rfl
      rw [List.filter_cons_of_pos hp]
      refine safe_readMarker.bind_imp ?_ ?_
      · intro _ _ hnone
        exact ⟨path, List.mem_cons_self, hnone⟩
      · rintro m w s' ⟨rfl, rfl, hpath, u, hu, hd⟩
        split
        · rename_i ht
          have hm : s'.objects.marker? table path = some m :=
            Storage.Objects.marker?_eq_some.2 ⟨hpath, by rw [hn, ht], u, hu, hd⟩
          refine ih.bind_imp ?_ ?_
          · rintro _ _ ⟨q, hq, hnone⟩
            exact ⟨q, List.mem_cons_of_mem _ hq, hnone⟩
          · rintro markers w s' ⟨rfl, rfl, hall, rfl⟩
            refine Call.safe_pure ⟨rfl, rfl, ?_, ?_⟩
            · intro q hq
              rcases List.mem_cons.1 hq with rfl | hq
              · exact ⟨m, hm⟩
              · exact hall q hq
            · rw [List.filterMap_cons_some hm]
        · rename_i ht
          refine Call.safe_throw ⟨path, List.mem_cons_self, ?_⟩
          rw [Option.eq_none_iff_forall_ne_some]
          intro m' hm'
          obtain ⟨-, hname, u', hu', hd'⟩ := Storage.Objects.marker?_eq_some.1 hm'
          rw [hu] at hu'
          obtain rfl := Option.some.inj hu'
          rw [hd] at hd'
          obtain rfl := Option.some.inj hd'
          rw [hn] at hname
          exact ht (Option.some.inj hname).symm

/-- **A refresh succeeds just if there is a marker wherever it looks.** -/
theorem safe_refresh :
    (refresh table).Safe o.Step (fun _ => True) (fun _ _ => ¬s.objects.IsLoadable table)
      (fun _ w s' => s' = s ∧ s.objects.IsLoadable table ∧ w.IsReadFrom table s.objects) v s := by
  unfold refresh
  refine Call.Safe.bind (g := fun listed w s' => w = v ∧ s' = s ∧
    ∃ found : List Storage.Meta,
    found.Perm (s.objects.list (table.place Table.timelineDirectory)) ∧
    listed = found.filterMap fun m => (table.relative? m.path).map (·, m.version)) ?_ ?_
  · apply Call.safe_storage
    rw [Table.list, Table.checked, Table.fault?_timelineDirectory]
    refine .ask rfl trivial fun x s' hx => .done ?_
    obtain ⟨rfl, rfl⟩ := Prod.mk.inj hx
    exact ⟨rfl, rfl, _, o.perm _, rfl⟩
  · rintro _ w s' ⟨rfl, rfl, found, hfound, rfl⟩
    rw [table.map_fst_listed]
    refine (safe_readMarkers _).bind_imp ?_ ?_
    · rintro _ _ ⟨path, hp, hnone⟩ hloadable
      obtain ⟨hp, u, hu⟩ := (Storage.Objects.mem_searched hfound).1 hp
      obtain ⟨m, hm⟩ := hloadable path u hp hu
      rw [hnone] at hm
      cases hm
    · rintro markers w s' ⟨rfl, rfl, hall, rfl⟩
      refine Call.safe_log (Call.safe_set ⟨rfl, ?_, found, hfound, rfl⟩)
      intro path u hp hu
      exact hall path ((Storage.Objects.mem_searched hfound).2 ⟨hp, u, hu⟩)

/-- To load is to refresh an empty view. -/
theorem run_load : (load table).run o.answer s =
    ((((refresh table).program .empty).run o.answer s).1.1.map
      fun _ => (((refresh table).program .empty).run o.answer s).1.2,
      (((refresh table).program .empty).run o.answer s).2) :=
  Program.run_bind o.answer _ _ s

/-- What a session finds when it opens is what is stored. -/
theorem of_load (h : ((load table).run o.answer s).1 = .ok t) :
    s.objects.IsLoadable table ∧ t.IsReadFrom table s.objects := by
  have hsafe : (refresh table).Safe o.Step (fun _ => True) (fun _ _ => ¬s.objects.IsLoadable table)
      (fun _ w s' => s' = s ∧ s.objects.IsLoadable table ∧ w.IsReadFrom table s.objects) .empty s :=
    safe_refresh
  have hrefresh := run_of_safe hsafe
  rw [run_load] at h
  generalize ((refresh table).program .empty).run o.answer s = r at h hrefresh
  obtain ⟨⟨e | a, w⟩, s'⟩ := r
  · cases h
  · obtain rfl := Except.ok.inj h
    exact hrefresh.2

/-- **A session opens,** if there is a marker wherever it looks. -/
theorem exists_load (h : s.objects.IsLoadable table) (o : Calm) :
    ∃ t, t.IsReadFrom table s.objects ∧ (load table).run o.answer s = (.ok t, s) := by
  have hrefresh : o.Gives (fun _ w s' => s' = s ∧ w.IsReadFrom table s.objects) (refresh table)
      .empty s :=
    safe_refresh.mono (fun _ h => h) (fun _ _ hn => hn h) fun _ _ _ hg => ⟨hg.1, hg.2.2⟩
  obtain ⟨a, t, s', hr, rfl, ht⟩ := hrefresh.run
  refine ⟨t, ht, ?_⟩
  rw [run_load, hr]
  rfl

end Calm

namespace Timeline.IsStoredIn

variable {o : Calm} {s : Scene} {table : Table} {t v : Timeline} {e : Entry}

/-- **Every session that opens has the stored timeline for its view.** -/
theorem load (h : t.IsStoredIn table s.objects) (o : Calm) :
    (Session.load table).run o.answer s = (.ok t, s) := by
  obtain ⟨w, hw, hr⟩ := Calm.exists_load h.isLoadable o
  rw [hr, h.eq_of_isReadFrom hw]

/-- A refresh gives the stored timeline to the view, and leaves storage as it is. -/
theorem gives_refresh (h : t.IsStoredIn table s.objects) :
    o.Gives (fun _ w s' => s' = s ∧ w = t) (Session.refresh table) v s :=
  Calm.safe_refresh.mono (fun _ h => h) (fun _ _ hn => hn h.isLoadable)
    fun _ _ _ hg => ⟨hg.1, h.eq_of_isReadFrom hg.2.2⟩

/-- **A transition moves the entry of its instant,** and touches nothing else. -/
theorem gives_transition (h : t.IsStoredIn table s.objects) (he : e ∈ t.entries) (target : State)
    (details : Option Details) (hl : e.instant.state.Leads target)
    (hd : ∀ d ∈ details, d.IsReadable) :
    o.Gives (fun i w s' => i = e.instant.moved target ∧ w = v.upsert (e.after target details) ∧
      (t.upsert (e.after target details)).IsStoredIn table s'.objects ∧
      (∀ path, path ≠ table.markerAt e.timestamp →
        s'.objects.find? path = s.objects.find? path) ∧ s'.merges = s.merges)
      (Session.transition table e.instant target details) v s := by
  obtain ⟨u, hu, hdecode⟩ := h.stored e he
  have hreadable := Marker.isReadable_of_decode? hdecode
  have hpath := Table.fault?_markerPath hreadable.1
  have hafter : (e.after target details).IsReadable := by
    refine ⟨hreadable.1, ?_⟩
    cases details with
    | none => exact hreadable.2
    | some d => exact hd d rfl
  unfold Session.transition
  rw [if_pos hl]
  refine Call.Safe.bind (g := fun known w s' => w = v ∧ s' = s ∧
    known = some (u.describe (table.markerAt e.timestamp))) ?_ ?_
  · refine Calm.safe_checked (r := .head (table.markerAt e.timestamp)) trivial ?_ fun _ => ?_
    · intro fault hf
      exact absurd (hpath.symm.trans hf) (Option.some_ne_none _).symm
    · simp only [Calm.answer, Calm.storage, Storage.Objects.answer, hu]
      exact ⟨trivial, trivial, rfl⟩
  rintro _ v s ⟨rfl, rfl, rfl⟩
  refine Calm.safe_readMarker.bind_imp ?_ ?_
  · intro _ _ hnone
    exact absurd ((Storage.Objects.marker?_markerPath hu hdecode).symm.trans hnone)
      (Option.some_ne_none _)
  rintro current v s ⟨rfl, rfl, -, u', hu', hd'⟩
  obtain rfl : u = u' := Option.some.inj (hu.symm.trans hu')
  obtain rfl : e = current := Option.some.inj (hdecode.symm.trans hd')
  rw [if_pos ⟨rfl, rfl⟩]
  refine Call.Safe.bind (g := fun written w s' => w = v ∧ ∃ version, written = .stored version ∧
    s' = ⟨s.objects.insert (table.markerAt e.timestamp)
      ⟨(e.after target details).encode, u.version + 1⟩, s.merges⟩) ?_ ?_
  · refine Calm.safe_checked (r := .put (table.markerAt e.timestamp)
      (e.after target details).encode (.version u.token)) trivial ?_ fun _ => ?_
    · intro fault hf
      exact absurd (hpath.symm.trans hf) (Option.some_ne_none _).symm
    · simp only [Calm.answer, Calm.storage, Storage.Objects.answer, Storage.Objects.put_token hu]
      exact ⟨trivial, _, rfl, trivial⟩
  rintro _ v _ ⟨rfl, version, rfl, rfl⟩
  refine Call.safe_log (Call.safe_modify (Call.safe_pure ⟨rfl, rfl, ?_, ?_, rfl⟩))
  · exact h.write hafter _
  · intro path hne
    rw [Storage.Objects.find?_insert, if_neg hne]

end Timeline.IsStoredIn
end CommitTimeline
