/-
# A commit leaves a table that opens

Whatever is stored of a table, as long as a session can open on it, a delta commit leaves
it so, with every instant that there was (`DeltaCommit.reloads`): what it writes lies at a
place of its own or takes a step of a compaction that it has read there
(`Storage.Objects.IsKeptIn`), and can be read again.

There is one exception. On a table without instants, the timestamp of a new one is that of
the time, and in a year outside 0 to 9999 it is one that nobody may name. Then the marker
that is written keeps every later session from opening (`DeltaCommit.not_reloads`).
-/

import CommitTimeline.Proofs.Compaction.Upkeep
import CommitTimeline.Proofs.Session.Reload
import CommitTimeline.Proofs.Timestamp

namespace CommitTimeline

namespace Marker

/-- The second marker is the first one, or what a compaction has become by its steps. -/
inductive Progresses (m : Marker) : Marker → Prop where
  | refl : Progresses m m
  | step {m' : Marker} {target : State} (h : Progresses m m')
      (ha : m'.instant.action = .compaction) (hl : m'.instant.state.Leads target) :
      Progresses m (m'.after target none)

/-- Progress carries over from one marker to the next. -/
theorem Progresses.trans {m m' m'' : Marker} (h : m.Progresses m') (h' : m'.Progresses m'') :
    m.Progresses m'' := by
  induction h' with
  | refl => exact h
  | step _ ha hl ih => exact ih.step ha hl

/-- Only a compaction becomes anything else. -/
theorem Progresses.eq_of_ne {m m' : Marker} (h : m.Progresses m')
    (hm : m.instant.action ≠ .compaction) : m' = m := by
  induction h with
  | refl => rfl
  | step _ ha _ ih => exact absurd (ih ▸ ha) hm

end Marker

namespace Storage.Objects

variable {s s' s'' : Objects} {table : Table} {m : Marker} {path : String} {version : Nat}

/-- What a write of a readable marker to its place leaves to be read. -/
theorem marker?_insert (hm : m.IsReadable) :
    (s.insert (table.markerAt m.timestamp) ⟨m.encode, version⟩).marker? table path =
      if path = Table.markerPath m.timestamp.text then some m else s.marker? table path := by
  split
  · rename_i hp
    subst hp
    refine marker?_markerPath (o := ⟨m.encode, version⟩) ?_ ?_
    · rw [find?_insert, if_pos rfl]
    · rw [Marker.decode?_encode, if_pos hm]
  · rename_i hp
    rw [marker?, marker?, find?_insert, if_neg]
    exact fun h => hp (Table.place_inj h).2

/-- Where a session can open, what is decoded at the place of a timestamp is of this timestamp. -/
theorem IsLoadable.marker?_of_find? (h : s.IsLoadable table) {t : Timestamp} (ht : t.IsValid)
    {o : Object} (hf : s.find? (table.markerAt t) = some o)
    (hd : Marker.decode? o.data = some m) :
    m.timestamp = t ∧ s.marker? table (Table.markerPath t.text) = some m := by
  obtain ⟨m', hm'⟩ := h _ o (table.isSearched_markerPath t) hf
  obtain ⟨-, hname, o', ho', hd'⟩ := marker?_eq_some.1 hm'
  obtain rfl : o = o' := Option.some.inj (hf.symm.trans ho')
  obtain rfl : m = m' := Option.some.inj (hd.symm.trans hd')
  refine ⟨?_, hm'⟩
  have hslash : '/' ∉ t.text.toList := fun hc =>
    (Table.sound_of_isAlphanum (List.all_eq_true.1 ht.2 _ hc)).1 rfl
  rw [Table.stem?_markerPath hslash, Option.some.injEq] at hname
  exact congrArg Timestamp.mk (String.toList_inj.1 hname.symm)

/-- A session opens on the second objects too, and finds there every marker of the first ones,
or what its compaction has become. -/
structure IsKeptIn (s : Objects) (table : Table) (s' : Objects) : Prop where
  loadable : s'.IsLoadable table
  shows : ∀ path m, table.IsSearched path → s.marker? table path = some m →
    ∃ m', s'.marker? table path = some m' ∧ m.Progresses m'

/-- Loadable objects are kept in themselves. -/
theorem IsLoadable.isKeptIn (h : s.IsLoadable table) : s.IsKeptIn table s :=
  ⟨h, fun _ m _ hm => ⟨m, hm, .refl⟩⟩

/-- What is kept carries over from one state to the next. -/
theorem IsKeptIn.trans (h : s.IsKeptIn table s') (h' : s'.IsKeptIn table s'') :
    s.IsKeptIn table s'' where
  loadable := h'.loadable
  shows := by
    intro path m hp hm
    obtain ⟨m', hm', hprogress⟩ := h.shows path m hp hm
    obtain ⟨m'', hm'', hprogress'⟩ := h'.shows path m' hp hm'
    exact ⟨m'', hm'', hprogress.trans hprogress'⟩

/-- A write keeps everything if the marker at its place has come to what it writes. -/
theorem IsKeptIn.insert (h : s.IsKeptIn table s') (hm : m.IsReadable)
    (hp : ∀ m₀, s.marker? table (Table.markerPath m.timestamp.text) = some m₀ →
      m₀.Progresses m) :
    s.IsKeptIn table (s'.insert (table.markerAt m.timestamp) ⟨m.encode, version⟩) where
  loadable := by
    intro path o hsearched ho
    rw [marker?_insert hm]
    split
    · exact ⟨m, rfl⟩
    · rename_i hne
      rw [find?_insert, if_neg] at ho
      · exact h.loadable path o hsearched ho
      · exact fun hc => hne (Table.place_inj hc).2
  shows := by
    intro path m₀ hsearched hm₀
    rw [marker?_insert hm]
    split
    · rename_i heq
      exact ⟨m, rfl, hp m₀ (heq ▸ hm₀)⟩
    · exact h.shows path m₀ hsearched hm₀

/-- Where nothing lies now, nothing has been kept. -/
theorem IsKeptIn.marker?_eq_none (h : s.IsKeptIn table s') (hp : table.IsSearched path)
    (hf : s'.find? (table.place path) = none) : s.marker? table path = none := by
  rw [Option.eq_none_iff_forall_ne_some]
  intro m hm
  obtain ⟨m', hm', -⟩ := h.shows path m hp hm
  obtain ⟨-, -, o, ho, -⟩ := marker?_eq_some.1 hm'
  rw [hf] at ho
  cases ho

end Storage.Objects

namespace Storage.Objects.IsKeptIn

open Session

variable {base : Storage.Objects} {table : Table} {h : History} {v : Timeline} {task : Nat}

/-- A call that writes nothing unless it gives a result keeps everything until then. -/
theorem safe_runs {α : Type} {c : Call α} {gives : α → Timeline → List Exchange → Prop}
    (hk : base.IsKeptIn table h.objects)
    (hc : c.Safe Alone Idle (fun _ => Idle) gives v []) :
    c.Safe (History.Step task) (fun h' => base.IsKeptIn table h'.objects)
      (fun _ h' => base.IsKeptIn table h'.objects)
      (fun a w h' => ∃ own, History.Runs task h own h' ∧ gives a w own) v h := by
  refine History.safe_runs_of_idle ?_ hc
  intro h' own hr hi
  rw [(hr.leads_of_idle hi.not_write).1]
  exact hk

/-- A refresh finds something if there was something. -/
theorem safe_refresh (hk : base.IsKeptIn table h.objects) :
    (refresh table).Safe (History.Step task) (fun h' => base.IsKeptIn table h'.objects)
      (fun _ h' => base.IsKeptIn table h'.objects)
      (fun _ w h' => base.IsKeptIn table h'.objects ∧ w.IsNamed ∧
        ∀ path m, table.IsSearched path → base.marker? table path = some m → w.entries ≠ [])
      v h := by
  refine (hk.safe_runs Session.safe_refresh).imp ?_
  rintro _ w h' ⟨own, hr, hl⟩
  obtain ⟨hobjects, -, hleads⟩ := hr.leads_of_idle hl.1.not_write
  refine ⟨hobjects ▸ hk, hl.isNamed, ?_⟩
  intro path m hp hm hnil
  obtain ⟨-, found, markers, hfound, hall, rfl⟩ := hl
  obtain ⟨m', hm', -⟩ := hk.shows path m hp hm
  obtain ⟨-, -, o, ho, -⟩ := marker?_eq_some.1 hm'
  have hsearched : path ∈ searched table found := (mem_searched (hleads _ hfound).1).2 ⟨hp, o, ho⟩
  cases markers with
  | nil =>
    have hnone : searched table found = [] := List.forall₂_nil_right_iff.1 hall
    rw [hnone] at hsearched
    cases hsearched
  | cons e markers =>
    have he : e ∈ (Timeline.ofEntries (e :: markers)).entries :=
      Timeline.mem_ofEntries.2 List.mem_cons_self
    rw [hnil] at he
    cases he

/-- An append writes where nothing was. -/
theorem safe_append (hk : base.IsKeptIn table h.objects) {m : Marker}
    (hv : refusal? v m.instant = none → m.IsReadable) :
    (append table m.instant m.details m.requestedAt).Safe (History.Step task)
      (fun h' => base.IsKeptIn table h'.objects) (fun _ h' => base.IsKeptIn table h'.objects)
      (fun i w h' => i = m.instant ∧ m.IsReadable ∧ w = v.upsert m ∧
        base.IsKeptIn table h'.objects ∧
        base.marker? table (Table.markerPath m.timestamp.text) = none) v h := by
  refine (hk.safe_runs (Session.safe_append m.instant m.details m.requestedAt)).imp ?_
  rintro i w h' ⟨own, hr, rfl, hrefusal, rfl, hc⟩
  have hm := hv hrefusal
  obtain ⟨hfind, ⟨version, hobjects⟩, -⟩ := hc.of_runs hr
  have hnone : base.marker? table (Table.markerPath m.timestamp.text) = none :=
    hk.marker?_eq_none (table.isSearched_markerPath m.timestamp) hfind
  refine ⟨rfl, hm, rfl, ?_, hnone⟩
  rw [hobjects]
  refine hk.insert hm ?_
  intro m₀ hm₀
  change base.marker? table (Table.markerPath m.timestamp.text) = some m₀ at hm₀
  rw [hnone] at hm₀
  cases hm₀

/-- A transition moves the marker that lies at the place of its instant. -/
theorem safe_transition (hk : base.IsKeptIn table h.objects) {instant : Instant} {target : State}
    {details : Option Details} (hv : instant.timestamp.IsValid)
    (hd : ∀ d ∈ details, d.IsReadable)
    (hp : ∀ m, m.instant = instant → m.instant.state.Leads target →
      h.objects.marker? table (Table.markerPath instant.timestamp.text) = some m →
      ∀ m₀, base.marker? table (Table.markerPath instant.timestamp.text) = some m₀ →
        m₀.Progresses (m.after target details)) :
    (transition table instant target details).Safe (History.Step task)
      (fun h' => base.IsKeptIn table h'.objects) (fun _ h' => base.IsKeptIn table h'.objects)
      (fun i w h' => i = instant.moved target ∧ base.IsKeptIn table h'.objects ∧
        ∃ m, m.instant = i ∧ w = v.upsert m ∧
          h'.objects.marker? table (Table.markerPath i.timestamp.text) = some m) v h := by
  refine (hk.safe_runs (Session.safe_transition instant target details)).imp ?_
  rintro i w h' ⟨own, hr, rfl, hleads, current, m, rfl, hm⟩
  obtain ⟨⟨data, version, hfind, hdecode⟩, ⟨version', hobjects⟩, -⟩ := hm.of_runs hr
  obtain ⟨ht, hcurrent⟩ := hk.loadable.marker?_of_find? hv hfind hdecode
  obtain rfl := hm.eq_after ht
  have hi := hm.instant_eq ht
  have hreadable : (current.after target details).IsReadable := by
    refine ⟨ht ▸ hv, ?_⟩
    cases details with
    | none => exact (Marker.isReadable_of_decode? hdecode).2
    | some d => exact hd d rfl
  rw [hobjects]
  refine ⟨rfl, ?_, _, by rw [← hi]; rfl, rfl, ?_⟩
  · refine hk.insert hreadable ?_
    intro m₀ hm₀
    exact hp current hi (hi ▸ hleads) hcurrent m₀ (ht ▸ hm₀)
  · refine (marker?_insert hreadable).trans (if_pos ?_)
    exact congrArg (fun t : Timestamp => Table.markerPath t.text) ht.symm

end Storage.Objects.IsKeptIn
namespace Compaction

open Session Storage.Objects

variable {base : Storage.Objects} {table : Table} {h : History} {v : Timeline} {task : Nat}
  {config : Config} {now : Moment}

/-- Everything is kept, and callers may name every timestamp of the view, which is not empty if
it was just loaded. -/
theorem upholds_kept {path : String} {m : Marker} (hp : table.IsSearched path)
    (hm : base.marker? table path = some m) :
    Upholds (History.Step task) table (fun h => base.IsKeptIn table h.objects)
      (fun v h => base.IsKeptIn table h.objects ∧ v.IsNamed ∧ v.entries ≠ [])
      (fun v h => base.IsKeptIn table h.objects ∧ v.IsNamed) where
  known := fun ⟨hk, hn, _⟩ => ⟨hk, hn⟩
  kept := And.left
  refresh := by
    intro v h hk
    refine hk.safe_refresh.imp ?_
    rintro _ w h' ⟨hk', hn, hne⟩
    exact ⟨hk', hn, hne path m hp hm⟩
  merge := by
    rintro v h h' timestamp plan x ⟨hk, hn⟩ hs
    rw [hs.leads.eq_of_idle rfl]
    exact ⟨hk, hn⟩
  compact := by
    rintro v h e target ⟨hk, hn⟩ he ha
    refine (hk.safe_transition (hn e he) ?_ ?_).imp ?_
    · intro d hd
      cases hd
    · intro current hi hl hcurrent m₀ hm₀
      obtain ⟨m', hm', hprogress⟩ := hk.shows _ m₀ (table.isSearched_markerPath _) hm₀
      obtain rfl := Option.some.inj (hm'.symm.trans hcurrent)
      exact hprogress.step (hi ▸ ha) hl
    · rintro i w h' ⟨rfl, hk', m', hi, rfl, -⟩
      have ht : m'.timestamp = e.timestamp := by
        rw [Marker.timestamp, hi]
        rfl
      exact ⟨rfl, ⟨hk', hn.upsert (ht ▸ hn e he)⟩, m', Timeline.mem_upsert_self v m', hi⟩

/-- A cycle on a table that has instants keeps them all. -/
theorem safe_run_kept {path : String} {m : Marker} (hp : table.IsSearched path)
    (hm : base.marker? table path = some m) (hk : base.IsKeptIn table h.objects) :
    (run table config now).Safe (History.Step task) (fun h => base.IsKeptIn table h.objects)
      (fun _ h => base.IsKeptIn table h.objects)
      (fun _ _ h => base.IsKeptIn table h.objects) v h := by
  refine ((upholds_kept hp hm).safe_run ?_ hk).imp fun _ _ _ hg => hg.1
  rintro v h ⟨hk, hn, hne⟩
  refine (hk.safe_append
    (m := ⟨.requested (v.newTimestamp now) .compaction, .plan v.nextPlan, some now⟩) ?_).imp ?_
  · intro hr
    exact ⟨isValid_of_refusal? hn (.inl hne) rfl hr, hn.isReadable_nextPlan⟩
  · rintro i w h' ⟨rfl, hm, rfl, hk', -⟩
    exact ⟨rfl, ⟨hk', hn.upsert hm.1⟩, _, Timeline.mem_upsert_self v _, rfl⟩

end Compaction

namespace DeltaCommit

open Session Storage.Objects

variable {base : Storage.Objects} {table : Table} {h : History} {v t : Timeline} {task : Nat}
  {config : Config} {timestamp : Timestamp} {batch : Batch} {now : Moment}

/-- **A delta commit is written to a place of its own,** and stays there to be read. -/
theorem safe_writeDelta_kept (hk : base.IsKeptIn table h.objects)
    (hv : refusal? v (.requested timestamp .deltaCommit) = none → timestamp.IsValid) :
    (writeDelta table timestamp batch now).Safe (History.Step task)
      (fun h' => base.IsKeptIn table h'.objects) (fun _ h' => base.IsKeptIn table h'.objects)
      (fun r _ h' => base.IsKeptIn table h'.objects ∧ ∃ m,
        m.instant = r.1 ∧ m.instant.action = .deltaCommit ∧
        h'.objects.marker? table (Table.markerPath r.1.timestamp.text) = some m) v h := by
  refine Call.Safe.bind (hk.safe_append
    (m := ⟨.requested timestamp .deltaCommit, .empty, some now⟩) fun hr => ⟨hv hr, trivial⟩) ?_
  rintro i w h₁ ⟨rfl, hm, -, hk₁, hnone⟩
  -- nothing was at the place of the new instant, so nothing is lost by its steps
  have hnew : ∀ m₀ m' : Marker,
      base.marker? table (Table.markerPath timestamp.text) = some m₀ → m₀.Progresses m' := by
    intro m₀ m' hm₀
    exact absurd (hm₀.symm.trans hnone) (Option.some_ne_none _)
  refine Call.Safe.bind (hk₁.safe_transition hm.1 (fun d hd => by cases hd)
    fun _ _ _ _ m₀ => hnew m₀ _) ?_
  rintro i w h₂ ⟨rfl, hk₂, -⟩
  refine Call.safe_ingest hk₂ ?_
  intro x h₃ hx
  have hk₃ : base.IsKeptIn table h₃.objects := by
    rw [hx.leads.eq_of_idle rfl]
    exact hk₂
  cases x with
  | error x => exact Call.safe_count (Call.safe_log (Call.safe_throw hk₃))
  | ok metadata =>
    refine Call.Safe.bind (hk₃.safe_transition hm.1 ?_ fun _ _ _ _ m₀ => hnew m₀ _) ?_
    · rintro d ⟨⟩
      trivial
    · rintro i w h₄ ⟨rfl, hk₄, m, hi, -, hm'⟩
      refine Call.safe_count (Call.safe_log (Call.safe_pure ⟨hk₄, m, hi, ?_, hm'⟩))
      rw [hi]
      rfl

/-- The cycle that may follow keeps what was written as well. -/
theorem safe_commit_kept (hk : base.IsKeptIn table h.objects)
    (hv : refusal? v (.requested timestamp .deltaCommit) = none → timestamp.IsValid) :
    (commit table config timestamp batch now).Safe (History.Step task)
      (fun h' => base.IsKeptIn table h'.objects) (fun _ h' => base.IsKeptIn table h'.objects)
      (fun d _ h' => base.IsKeptIn table h'.objects ∧ ∃ path m, table.IsSearched path ∧
        h'.objects.marker? table path = some m ∧ m.instant = d.instant) v h := by
  refine Call.Safe.bind (Call.safe_within _ (safe_writeDelta_kept hk hv)) ?_
  rintro ⟨i, metadata⟩ w h₁ ⟨hk₁, m, rfl, ha, hm⟩
  have hp := table.isSearched_markerPath m.instant.timestamp
  dsimp only
  split
  · refine Call.Safe.bind ((Compaction.safe_run_kept hp hm hk₁.loadable.isKeptIn).mono
      (fun _ hg => hk₁.trans hg) (fun _ _ hg => hk₁.trans hg) fun _ _ _ hg => hg) ?_
    intro o w h₂ hk₂
    obtain ⟨m', hm', hprogress⟩ := hk₂.shows _ m hp hm
    obtain rfl := hprogress.eq_of_ne (by rw [ha]; decide)
    exact Call.safe_pure ⟨hk₁.trans hk₂, _, _, hp, hm', rfl⟩
  · exact Call.safe_pure ⟨hk₁, _, m, hp, hm, rfl⟩

/-- **A commit leaves a table that opens,** with all that was there, if there was an instant or
the year has four digits. If it gives a result, its instant is there too. -/
theorem reloads {o : Calm} {s s' : Scene} {r : Except Error DeltaCommit} {w : Timeline}
    (ht : ((load table).run o.answer s).1 = .ok t) (hn : t.entries ≠ [] ∨ now.IsCommon)
    (hr : ((start table config batch now).program v).run o.answer s = ((r, w), s')) (o' : Calm) :
    ∃ t', (load table).run o'.answer s' = (.ok t', s') ∧
      (∀ e ∈ t.entries, ∃ e' ∈ t'.entries, e.Progresses e') ∧
      ∀ d, r = .ok d → d.instant ∈ t'.instants := by
  obtain ⟨hloadable, hread⟩ := Calm.of_load ht
  have hstart : (start table config batch now).Safe (History.Step 0)
      (fun h => s.objects.IsKeptIn table h.objects) (fun _ h => s.objects.IsKeptIn table h.objects)
      (fun d _ h => s.objects.IsKeptIn table h.objects ∧ ∃ path m, table.IsSearched path ∧
        h.objects.marker? table path = some m ∧ m.instant = d.instant) v ⟨[], s.objects⟩ := by
    have hk : s.objects.IsKeptIn table (History.objects ⟨[], s.objects⟩) := hloadable.isKeptIn
    refine Call.Safe.bind hk.safe_refresh ?_
    rintro _ w h ⟨hk, hnamed, hne⟩
    refine Call.safe_view (safe_commit_kept hk ?_)
    intro hrefusal
    refine isValid_of_refusal? hnamed (hn.imp_left ?_) rfl hrefusal
    intro hn
    obtain ⟨e, he⟩ := List.exists_mem_of_ne_nil _ hn
    obtain ⟨path, hp, hm⟩ := hread.mem_iff.1 he
    exact hne path e hp hm
  have hends := Calm.run_of_safe (Calm.safe_of_leads (o := o) (s := s) hstart rfl
    fun h e objects' hleads => ⟨_, .mk hleads, rfl⟩)
  rw [hr] at hends
  have hkept : s.objects.IsKeptIn table s'.objects ∧ ∀ d, r = .ok d →
      ∃ path m, table.IsSearched path ∧ s'.objects.marker? table path = some m ∧
        m.instant = d.instant := by
    cases r with
    | error e =>
      obtain ⟨h, hobjects, hk⟩ := hends
      exact ⟨hobjects ▸ hk, fun d hd => by cases hd⟩
    | ok d =>
      obtain ⟨h, hobjects, hk, hd⟩ := hends
      rw [hobjects] at hk hd
      refine ⟨hk, ?_⟩
      rintro _ ⟨⟩
      exact hd
  obtain ⟨hk, hd⟩ := hkept
  obtain ⟨t', hread', hload⟩ := Calm.exists_load hk.loadable o'
  refine ⟨t', hload, ?_, ?_⟩
  · intro e he
    obtain ⟨path, hp, hm⟩ := hread.mem_iff.1 he
    obtain ⟨e', hm', hprogress⟩ := hk.shows path e hp hm
    exact ⟨e', hread'.mem_iff.2 ⟨path, hp, hm'⟩, hprogress⟩
  · intro d hok
    obtain ⟨path, m, hp, hm, hi⟩ := hd d hok
    exact List.mem_map.2 ⟨m, hread'.mem_iff.2 ⟨path, hp, hm⟩, hi⟩

/-- The first moment of the year 10000. -/
def tenThousand : Moment := ⟨253402300800, 0, by decide⟩

/-- In the year 10000 a delta commit is written behind a requested compaction, and the cycle
that follows completes the compaction. -/
theorem reloads_of_pending :
    ∃ s t d w s', ((load .sample).run Calm.plain.answer s).1 = .ok t ∧ t.entries ≠ [] ∧
      ((start .sample ⟨true, 1, .ofSeconds 1⟩ .empty tenThousand).program .empty).run
        Calm.plain.answer s = ((.ok d, w), s') ∧
      ∃ t', (load .sample).run Calm.plain.answer s' = (.ok t', s') ∧
        (∀ e ∈ t.entries, ∃ e' ∈ t'.entries, e.Progresses e') ∧ d.instant ∈ t'.instants := by
  let e : Entry := ⟨.requested ⟨"001"⟩ .compaction, .plan .empty, none⟩
  let s : Scene := (((append .sample e.instant e.details e.requestedAt).program .empty).run
    Calm.plain.answer ⟨.empty, []⟩).2
  have ht : ((load .sample).run Calm.plain.answer s).1 = .ok (Timeline.empty.upsert e) := by
    decide +kernel
  have hn : (Timeline.empty.upsert e).entries ≠ [] := List.cons_ne_nil _ _
  have hok : (((start .sample ⟨true, 1, .ofSeconds 1⟩ .empty tenThousand).program .empty).run
      Calm.plain.answer s).1.1.isOk = true := by
    decide +kernel
  generalize hr : ((start .sample ⟨true, 1, .ofSeconds 1⟩ .empty tenThousand).program .empty).run
    Calm.plain.answer s = x at hok
  obtain ⟨⟨r, w⟩, s'⟩ := x
  cases r with
  | error e => cases hok
  | ok d =>
    obtain ⟨t', hload, hkept, hd⟩ := reloads ht (.inl hn) hr .plain
    exact ⟨s, _, d, w, s', ht, hn, hr, t', hload, hkept, hd d rfl⟩

/-- **A first commit in the year 10000 leaves a table that does not open:** its marker names a
timestamp that nobody may name. -/
theorem not_reloads :
    ((load .sample).run Calm.plain.answer ⟨.empty, []⟩).1 = .ok .empty ∧
      ¬∃ t', ((load .sample).run Calm.plain.answer
        (((start .sample .standard .empty tenThousand).program .empty).run Calm.plain.answer
          ⟨.empty, []⟩).2).1 = .ok t' := by
  have hfails : ((load .sample).run Calm.plain.answer
      (((start .sample .standard .empty tenThousand).program .empty).run Calm.plain.answer
        ⟨.empty, []⟩).2).1.isOk = false := by
    decide +kernel
  refine ⟨by decide +kernel, ?_⟩
  rintro ⟨t', ht'⟩
  rw [ht'] at hfails
  cases hfails

end DeltaCommit
end CommitTimeline
