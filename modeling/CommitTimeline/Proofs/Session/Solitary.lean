/-
# A session that nobody disturbs

While nobody else writes, a refresh finds the timeline that is stored, and an append or a
transition puts a marker into it and changes no other object (`Timeline.IsPut`). This is
so in calm, and where storage may fail at any request: then a call that fails has changed
nothing. What is said of both is said of `Session.Solitary` surroundings, which tell how
the writer of the table may answer a merge, and what may hold where storage has failed.
-/

import CommitTimeline.Proofs.Session.Reload
import CommitTimeline.Proofs.Timestamp

namespace CommitTimeline

/-- Every object that a refresh looks at is a marker that can be read, at the place of its own
timestamp. -/
def Storage.Objects.IsOrderly (s : Objects) (table : Table) : Prop :=
  ∀ path o, table.IsSearched path → s.find? (table.place path) = some o →
    ∃ m, Marker.decode? o.data = some m ∧ path = Table.markerPath m.timestamp.text

namespace Timeline

variable {t u : Timeline} {table : Table} {m m' : Marker} {s s' s'' : Storage.Objects}

/-- A marker has been put into the timeline that is stored of a table, and no other object has
changed. -/
structure IsPut (t : Timeline) (table : Table) (m : Marker) (s s' : Storage.Objects) : Prop where
  stored : (t.upsert m).IsStoredIn table s'
  others : ∀ path, path ≠ table.markerAt m.timestamp → s'.find? path = s.find? path

/-- Of two markers that are put at one timestamp the later one stays. -/
theorem IsPut.trans (h : t.IsPut table m s s') (ht : t.IsStrict)
    (h' : (t.upsert m).IsPut table m' s' s'') (htime : m.timestamp = m'.timestamp) :
    t.IsPut table m' s s'' where
  stored := upsert_upsert ht htime ▸ h'.stored
  others := by
    intro path hp
    rw [h'.others path hp, h.others path (htime ▸ hp)]

namespace IsStoredIn

/-- Where nothing lies where a refresh looks, no markers are stored. -/
theorem empty (h : ∀ path, table.IsSearched path → s.find? (table.place path) = none) :
    Timeline.empty.IsStoredIn table s where
  strict := isStrict_empty
  stored := by
    intro e he
    cases he
  only := by
    intro path o hp ho
    rw [h path hp] at ho
    cases ho

/-- Where nothing is stored at all, no markers are. -/
theorem nothing (table : Table) : Timeline.empty.IsStoredIn table .empty :=
  .empty fun _ _ => Storage.Objects.find?_empty _

/-- Objects that a timeline is stored in are orderly. -/
theorem isOrderly (h : t.IsStoredIn table s) : s.IsOrderly table := by
  intro path o hp ho
  obtain ⟨e, he, rfl⟩ := h.only path o hp ho
  obtain ⟨o', ho', hd⟩ := h.stored e he
  obtain rfl : o = o' := Option.some.inj (ho.symm.trans ho')
  exact ⟨e, hd, rfl⟩

/-- Only one timeline is stored. -/
theorem eq (h : t.IsStoredIn table s) (h' : u.IsStoredIn table s) : u = t := by
  have hload := h.load .plain (s := ⟨s, []⟩)
  rw [h'.load .plain (s := ⟨s, []⟩)] at hload
  exact Except.ok.inj (Prod.mk.inj hload).1

/-- Every entry of a stored timeline is readable. -/
theorem isReadable (h : t.IsStoredIn table s) {e : Entry} (he : e ∈ t.entries) : e.IsReadable := by
  obtain ⟨o, -, hd⟩ := h.stored e he
  exact Marker.isReadable_of_decode? hd

/-- The timestamps of a stored timeline are valid. -/
theorem isNamed (h : t.IsStoredIn table s) : t.IsNamed :=
  fun _ he => (h.isReadable he).1

/-- What is written to its place has been put into the timeline. -/
theorem isPut (h : t.IsStoredIn table s) (hm : m.IsReadable) (version : Nat) :
    t.IsPut table m s (s.insert (table.markerAt m.timestamp) ⟨m.encode, version⟩) where
  stored := h.write hm version
  others := by
    intro path hp
    rw [Storage.Objects.find?_insert, if_neg hp]

/-- Nothing lies at the place of a timestamp that is not on the timeline. -/
theorem find?_eq_none (h : t.IsStoredIn table s) {timestamp : Timestamp}
    (hne : ∀ e ∈ t.entries, e.timestamp ≠ timestamp) :
    s.find? (table.markerAt timestamp) = none := by
  rw [Option.eq_none_iff_forall_ne_some]
  intro o ho
  obtain ⟨e, he, hp⟩ := h.only _ o (table.isSearched_markerPath timestamp) ho
  exact hne e he (congrArg Timestamp.mk (Table.markerPath_inj hp)).symm

/-- What is read and decoded at the place of a timestamp is its entry. -/
theorem mem_of_decode? (h : t.IsStoredIn table s) {timestamp : Timestamp} {o : Storage.Object}
    (ho : s.find? (table.markerAt timestamp) = some o) (hd : Marker.decode? o.data = some m) :
    m ∈ t.entries ∧ m.timestamp = timestamp := by
  obtain ⟨e, he, hp⟩ := h.only _ o (table.isSearched_markerPath timestamp) ho
  have ht : timestamp = e.timestamp := congrArg Timestamp.mk (Table.markerPath_inj hp)
  obtain ⟨o', ho', hd'⟩ := h.stored e he
  rw [← ht] at ho'
  obtain rfl := Option.some.inj (ho.symm.trans ho')
  obtain rfl : m = e := Option.some.inj (hd.symm.trans hd')
  exact ⟨he, ht.symm⟩

end IsStoredIn
end Timeline

namespace Session

variable {σ : Type}

/-- Surroundings in which nobody else writes to a table: `merges` tells how the writer may answer
a merge, and `fails` what may hold where storage has failed. -/
structure Solitary (step : σ → Exchange → σ → Prop) (objects : σ → Storage.Objects)
    (table : Table) (merges : Timestamp → Plan → Except Error Unit → Prop)
    (fails : Error → σ → Prop) : Prop where
  refresh : ∀ {t v : Timeline} {s : σ}, t.IsStoredIn table (objects s) →
    (refresh table).Safe step (fun _ => True) fails
      (fun _ w s' => w = t ∧ objects s' = objects s) v s
  append : ∀ {t : Timeline} {s : σ} {m : Marker}, t.IsStoredIn table (objects s) → m.IsReadable →
    refusal? t m.instant = none →
    (append table m.instant m.details m.requestedAt).Safe step (fun _ => True) fails
      (fun i w s' => i = m.instant ∧ w = t.upsert m ∧
        t.IsPut table m (objects s) (objects s')) t s
  transition : ∀ {t v : Timeline} {s : σ} {e : Entry} (target : State),
    t.IsStoredIn table (objects s) → e ∈ t.entries → e.instant.state.Leads target →
    (transition table e.instant target none).Safe step (fun _ => True) fails
      (fun i w s' => i = e.instant.moved target ∧ w = v.upsert (e.after target none) ∧
        t.IsPut table (e.after target none) (objects s) (objects s')) v s
  merge : ∀ {s s' : σ} {timestamp plan x}, step s ⟨.merge timestamp plan, x⟩ s' →
    objects s' = objects s ∧ merges timestamp plan x

/-- A requested instant after all others is not refused, if no compaction is outstanding. -/
theorem refusal?_eq_none {t : Timeline} {instant : Instant} (hs : instant.state = .requested)
    (hnew : ∀ e ∈ t.entries, e.timestamp < instant.timestamp)
    (hnone : ∀ e ∈ t.entries, ¬e.IsOutstanding) : refusal? t instant = none := by
  unfold refusal?
  rw [if_neg (not_not.2 hs), Timeline.pendingCompaction?_eq_none hnone]
  split
  · rename_i last hlast
    have hmem : last ∈ t.instants := List.mem_reverse.1 (List.mem_of_find?_eq_some hlast)
    obtain ⟨e, he, rfl⟩ := List.mem_map.1 hmem
    have hle : ¬instant.timestamp ≤ e.instant.timestamp := Timestamp.not_le.2 (hnew e he)
    rw [if_neg hle]
    split <;> rfl
  · rfl

section History

variable {table : Table} {v : Timeline} {h : History} {task : Nat} {m : Marker}

/-- A call that writes nothing unless it gives a result changes nothing until then. -/
theorem safe_runs {α : Type} {c : Call α} {gives : α → Timeline → List Exchange → Prop}
    (hc : c.Safe Alone Idle (fun _ => Idle) gives v []) :
    c.Safe (History.Step task) (fun _ => True) (fun _ h' => h'.objects = h.objects)
      (fun a w h' => ∃ own, History.Runs task h own h' ∧ gives a w own) v h := by
  have hidle : ∀ h' own, History.Runs task h own h' → Idle own → h'.objects = h.objects :=
    fun _ _ hr hi => (hr.leads_of_idle hi.not_write).1
  exact (History.safe_runs_of_idle hidle hc).mono (fun _ _ => trivial) (fun _ _ hf => hf)
    fun _ _ _ hg => hg

/-- An append writes its marker, whether it can be read or not, or it fails and changes
nothing. -/
theorem safe_append_inserts :
    (append table m.instant m.details m.requestedAt).Safe (History.Step task) (fun _ => True)
      (fun _ h' => h'.objects = h.objects)
      (fun i w h' => i = m.instant ∧ refusal? v m.instant = none ∧ w = v.upsert m ∧
        ∃ version, h'.objects = h.objects.insert (table.markerAt m.timestamp) ⟨m.encode, version⟩)
      v h := by
  refine (safe_runs (safe_append m.instant m.details m.requestedAt)).imp ?_
  rintro i w h' ⟨own, hr, rfl, hrefusal, rfl, hc⟩
  exact ⟨rfl, hrefusal, rfl, (hc.of_runs hr).2.1⟩

/-- What cannot be read is not moved. -/
theorem safe_transition_of_unreadable {instant : Instant} {target : State}
    {details : Option Details} {o : Storage.Object}
    (ho : h.objects.find? (table.markerAt instant.timestamp) = some o)
    (hd : Marker.decode? o.data = none) :
    (transition table instant target details).Safe (History.Step task) (fun _ => True)
      (fun _ h' => h'.objects = h.objects) (fun _ _ _ => False) v h := by
  refine (safe_runs (safe_transition instant target details)).imp ?_
  rintro i w h' ⟨own, hr, -, -, current, m, -, hm⟩
  obtain ⟨⟨data, version, hf, hdecode⟩, -⟩ := hm.of_runs hr
  obtain rfl := Option.some.inj (ho.symm.trans hf)
  rw [hdecode] at hd
  cases hd

end History

/-- What is refused is not appended. -/
theorem safe_append_of_refusal? {step : σ → Exchange → σ → Prop} {waits : σ → Prop}
    {fails : Error → σ → Prop} {gives : Instant → Timeline → σ → Prop} {table : Table}
    {v : Timeline} {s : σ} {instant : Instant} {details : Details} {requestedAt : Option Moment}
    {x : Error} (hr : refusal? v instant = some x) (hf : fails x s) :
    (append table instant details requestedAt).Safe step waits fails gives v s := by
  unfold append
  refine Call.safe_view ?_
  rw [hr]
  exact Call.safe_throw hf

end Session

namespace Timeline.IsStoredIn

open Session

section Calm

variable {o : Calm} {s : Scene} {table : Table} {t : Timeline} {m : Marker}

/-- **An append in calm puts its marker into the timeline,** if it is not refused. -/
theorem gives_append (h : t.IsStoredIn table s.objects) (hm : m.IsReadable)
    (hr : refusal? t m.instant = none) :
    o.Gives (fun i w s' => i = m.instant ∧ w = t.upsert m ∧
      t.IsPut table m s.objects s'.objects)
      (append table m.instant m.details m.requestedAt) t s := by
  have hnone : s.objects.find? (table.markerAt m.timestamp) = none :=
    h.find?_eq_none fun e he => Timestamp.ne_of_lt (lt_of_refusal? hr e he)
  have hput : s.objects.put (table.markerAt m.timestamp) m.encode .absent =
      (.stored (Storage.Object.token ⟨m.encode, 1⟩),
        s.objects.insert (table.markerAt m.timestamp) ⟨m.encode, 1⟩) := by
    rw [Storage.Objects.put, hnone]
    rfl
  unfold append
  refine Call.safe_view ?_
  rw [hr]
  refine Call.Safe.bind (g := fun written w s' => w = t ∧ ∃ version, written = .stored version ∧
    s' = ⟨s.objects.insert (table.markerAt m.timestamp) ⟨m.encode, 1⟩, s.merges⟩) ?_ ?_
  · refine Calm.safe_checked (r := .put (table.markerAt m.timestamp) m.encode .absent) trivial ?_
      fun _ => ?_
    · intro fault hf
      exact absurd ((Table.fault?_markerPath hm.1).symm.trans hf) (Option.some_ne_none _).symm
    · simp only [Calm.answer, Calm.storage, Storage.Objects.answer, hput]
      exact ⟨trivial, _, rfl, trivial⟩
  rintro _ v _ ⟨rfl, version, rfl, rfl⟩
  exact Call.safe_log (Call.safe_modify (Call.safe_pure ⟨rfl, rfl, h.isPut hm 1⟩))

end Calm

section History

variable {table : Table} {t v w : Timeline} {h h' : History} {task : Nat} {own : List Exchange}
  {e m : Marker}

/-- **What is loaded is what is stored,** in whatever order storage lists. -/
theorem eq_of_loads (ht : t.IsStoredIn table h.objects) (hr : History.Runs task h own h')
    (hl : Loads table w own) : w = t := by
  obtain ⟨hidle, found, markers, hfound, hall, rfl⟩ := hl
  obtain ⟨-, -, hleads⟩ := hr.leads_of_idle hidle.not_write
  have hperm : found.Perm (h.objects.list (table.place Table.timelineDirectory)) :=
    (hleads _ hfound).1
  refine ht.eq_of_isReadFrom ⟨found, hperm, congrArg ofEntries ?_⟩
  have hsearched : ∀ path ∈ Storage.Objects.searched table found, table.IsSearched path :=
    fun path hp => ((Storage.Objects.mem_searched hperm).1 hp).1
  change List.Forall₂ _ (Storage.Objects.searched table found) markers at hall
  generalize Storage.Objects.searched table found = paths at hall hsearched
  induction hall with
  | nil => rfl
  | @cons path m paths markers hm _ ih =>
    obtain ⟨-, data, hread, hd⟩ := hm
    obtain ⟨version, hf⟩ := (hleads _ hread).get.2
    have hp := hsearched path List.mem_cons_self
    obtain ⟨e, he, rfl⟩ := ht.only path _ hp hf
    obtain ⟨hme, ht'⟩ := ht.mem_of_decode? hf hd
    rw [List.filterMap_cons_some ((ht.marker?_iff hp).2 ⟨hme, by rw [ht']⟩),
      ← ih fun q hq => hsearched q (List.mem_cons_of_mem _ hq)]

/-- **A refresh finds what is stored,** or it fails. -/
theorem safe_refresh (ht : t.IsStoredIn table h.objects) :
    (refresh table).Safe (History.Step task) (fun _ => True)
      (fun _ h' => h'.objects = h.objects)
      (fun _ w h' => w = t ∧ h'.objects = h.objects) v h := by
  refine (safe_runs Session.safe_refresh).imp ?_
  rintro _ w h' ⟨own, hr, hl⟩
  exact ⟨ht.eq_of_loads hr hl, (hr.leads_of_idle hl.1.not_write).1⟩

/-- **An append puts its marker into the timeline,** or it fails and changes nothing. -/
theorem safe_append (ht : t.IsStoredIn table h.objects) (hm : m.IsReadable) :
    (append table m.instant m.details m.requestedAt).Safe (History.Step task) (fun _ => True)
      (fun _ h' => h'.objects = h.objects)
      (fun i w h' => i = m.instant ∧ refusal? v m.instant = none ∧ w = v.upsert m ∧
        t.IsPut table m h.objects h'.objects) v h := by
  refine safe_append_inserts.imp ?_
  rintro i w h' ⟨hi, hrefusal, hw, version, hobjects⟩
  rw [hobjects]
  exact ⟨hi, hrefusal, hw, ht.isPut hm version⟩

/-- **A transition moves an entry of the timeline,** or it fails and changes nothing. -/
theorem safe_transition (ht : t.IsStoredIn table h.objects) (instant : Instant) (target : State)
    {details : Option Details} (hd : ∀ d ∈ details, d.IsReadable) :
    (transition table instant target details).Safe (History.Step task) (fun _ => True)
      (fun _ h' => h'.objects = h.objects)
      (fun i w h' => i = instant.moved target ∧ instant.state.Leads target ∧ ∃ e ∈ t.entries,
        e.instant = instant ∧ w = v.upsert (e.after target details) ∧
        t.IsPut table (e.after target details) h.objects h'.objects) v h := by
  refine (safe_runs (Session.safe_transition instant target details)).imp ?_
  rintro i w h' ⟨own, hr, rfl, hleads, e, m, rfl, hm⟩
  obtain ⟨⟨data, version, hf, hdecode⟩, ⟨version', hobjects⟩, -⟩ := hm.of_runs hr
  obtain ⟨he, htime⟩ := ht.mem_of_decode? hf hdecode
  obtain rfl := hm.eq_after htime
  have hreadable : (e.after target details).IsReadable := by
    refine ⟨(ht.isReadable he).1, ?_⟩
    cases details with
    | none => exact (ht.isReadable he).2
    | some d => exact hd d rfl
  rw [hobjects]
  exact ⟨rfl, hleads, e, he, hm.instant_eq htime, rfl, ht.isPut hreadable version'⟩

/-- A transition of an entry moves it, if it gives a result. -/
theorem safe_move (ht : t.IsStoredIn table h.objects) (he : e ∈ t.entries) (target : State)
    {details : Option Details} (hd : ∀ d ∈ details, d.IsReadable) :
    (transition table e.instant target details).Safe (History.Step task) (fun _ => True)
      (fun _ h' => h'.objects = h.objects)
      (fun i w h' => i = e.instant.moved target ∧ w = v.upsert (e.after target details) ∧
        t.IsPut table (e.after target details) h.objects h'.objects) v h := by
  refine (ht.safe_transition e.instant target hd).imp ?_
  rintro i w h' ⟨hi, -, e', he', hinstant, hg⟩
  obtain rfl : e' = e :=
    Timeline.eq_of_timestamp_eq ht.strict he' he (congrArg Instant.timestamp hinstant)
  exact ⟨hi, hg⟩

end History
end Timeline.IsStoredIn

namespace Session

variable {table : Table}

/-- In calm the writer answers as it does, and storage never fails. -/
theorem solitary_calm (o : Calm) (table : Table) :
    Solitary o.Step Scene.objects table (fun timestamp plan x => o.merge timestamp plan = x)
      (fun _ _ => False) where
  refresh := fun h => h.gives_refresh.imp fun _ _ _ hg => ⟨hg.2, congrArg Scene.objects hg.1⟩
  append := fun h hm hr => h.gives_append hm hr
  transition := by
    intro t v s e target h he hl
    refine (h.gives_transition he target none hl ?_).imp ?_
    · intro d hd
      cases hd
    · rintro i w s' ⟨hi, hw, hstored, hothers, -⟩
      exact ⟨hi, hw, hstored, hothers⟩
  merge := by
    intro s s' timestamp plan x h
    exact ⟨congrArg (·.2.objects) h.symm, congrArg Prod.fst h⟩

/-- Where storage may fail, the writer may answer anything. -/
theorem solitary_history (task : Nat) (table : Table) :
    Solitary (History.Step task) History.objects table (fun _ _ _ => True) (fun _ _ => True) where
  refresh := fun h => h.safe_refresh.mono (fun _ h => h) (fun _ _ _ => trivial) fun _ _ _ hg => hg
  append := by
    intro t s m h hm _
    refine (h.safe_append hm).mono (fun _ h => h) (fun _ _ _ => trivial) ?_
    rintro i w s' ⟨hi, -, hg⟩
    exact ⟨hi, hg⟩
  transition := by
    intro t v s e target h he _
    refine (h.safe_move he target ?_).mono (fun _ h => h) (fun _ _ _ => trivial) fun _ _ _ hg => hg
    intro d hd
    cases hd
  merge := fun h => ⟨h.leads.eq_of_idle rfl, trivial⟩

end Session
end CommitTimeline
