/-
# A session and its clock

One session takes the timestamps of its new instants from a clock that may stand still or go
back, while nobody else writes to its table and storage may fail at any request
(`Session.Generates`). What it appends there is never refused as out of order
(`Session.advances`), as long as timestamps are not exhausted (`Timeline.IsExhausted`).

There are two ways to such an error. The instant may come before another one of the view:
a new timestamp comes after all of them (`Timeline.lt_newTimestamp_iff`). Or its marker may be
there already: all timestamps whose markers are stored are on the view
(`Timeline.Knows`), since it was loaded, and whatever the session has written since then is on
its view as well.
-/

import CommitTimeline.Proofs.Session.Coherence
import CommitTimeline.Proofs.Timestamp.Next

namespace CommitTimeline

namespace Timestamp

variable {t : Timestamp} {m : Moment}

/-- The timestamp can be told from the path of its marker: it has no slash in it. -/
def IsSegment (t : Timestamp) : Prop :=
  '/' ∉ t.text.toList

instance (t : Timestamp) : Decidable t.IsSegment :=
  inferInstanceAs (Decidable (¬_))

/-- A valid timestamp is a segment of a path. -/
theorem isSegment_of_isValid (h : t.IsValid) : t.IsSegment :=
  fun hc => (Table.sound_of_isAlphanum (List.all_eq_true.1 h.2 _ hc)).1 rfl

/-- No year has a slash in it, whatever its sign. -/
theorem isSegment_ofMoment (m : Moment) : (ofMoment m).IsSegment := by
  by_cases hm : m.IsCommon
  · exact isSegment_of_isValid (isValid_ofMoment hm)
  have hy : yearText m.reading.date.year =
      (if m.reading.date.year < 0 then '-' else '+') ::
        Text.padded 4 m.reading.date.year.natAbs := if_neg hm
  have hdigit : Char.isDigit '/' ≠ true := by decide
  have hsign : '/' ≠ (if m.reading.date.year < 0 then '-' else '+') := by
    split <;> decide
  intro hc
  simp only [ofMoment, hy, String.toList_ofList, List.mem_append, List.mem_cons] at hc
  rcases hc with ((((((hc | hc) | hc) | hc) | hc) | hc) | hc) | hc
  · exact hsign hc
  · exact hdigit (Text.isDigit_of_mem_padded hc)
  all_goals exact hdigit (Text.isDigit_of_mem_fixed hc)

/-- The successor of a segment is a segment. -/
theorem isSegment_successor (h : t.IsSegment) : t.successor.IsSegment := by
  rw [IsSegment, successor, String.toList_append, List.mem_append]
  rintro (hc | hc)
  · exact h hc
  · exact absurd hc (by decide)

end Timestamp

namespace Timeline

variable {t : Timeline} {table : Table} {e m : Marker} {s : Storage.Objects} {now : Moment}

/-- No timestamp is lost when an entry is put into the timeline. -/
theorem exists_mem_upsert (m : Marker) (he : e ∈ t.entries) :
    ∃ e' ∈ (t.upsert m).entries, e'.timestamp = e.timestamp := by
  obtain ⟨entries, sorted⟩ := t
  change e ∈ entries at he
  show ∃ e' ∈ put m entries, e'.timestamp = e.timestamp
  clear sorted
  induction entries with
  | nil => cases he
  | cons x xs ih =>
    rw [put]
    split
    · exact ⟨e, List.mem_cons_of_mem m he, rfl⟩
    split
    · rename_i heq
      rcases List.mem_cons.1 he with rfl | he
      · exact ⟨m, List.mem_cons_self, heq.1⟩
      · exact ⟨e, List.mem_cons_of_mem m he, rfl⟩
    · rcases List.mem_cons.1 he with rfl | he
      · exact ⟨e, List.mem_cons_self, rfl⟩
      · obtain ⟨e', he', ht⟩ := ih he
        exact ⟨e', List.mem_cons_of_mem x he', ht⟩

/-- Every timestamp whose marker is stored is on the timeline. -/
structure Knows (t : Timeline) (table : Table) (s : Storage.Objects) : Prop where
  segments : ∀ e ∈ t.entries, e.timestamp.IsSegment
  found : ∀ timestamp o, timestamp.IsSegment → s.find? (table.markerAt timestamp) = some o →
    ∃ e ∈ t.entries, e.timestamp = timestamp

namespace Knows

/-- A timestamp that is generated behind a view that knows the table is a segment. -/
theorem isSegment_newTimestamp (h : t.Knows table s) (now : Moment) :
    (t.newTimestamp now).IsSegment := by
  unfold newTimestamp
  dsimp only
  split
  · exact Timestamp.isSegment_ofMoment now
  rename_i last hlast
  split
  · exact Timestamp.isSegment_ofMoment now
  split
  · exact Timestamp.isSegment_ofMoment _
  · obtain ⟨e, he, rfl, -⟩ := exists_of_last? hlast
    exact Timestamp.isSegment_successor (h.segments e he)

/-- What is stored is put into the timeline as well. -/
theorem write (h : t.Knows table s) (hm : m.timestamp.IsSegment) (o : Storage.Object) :
    (t.upsert m).Knows table (s.insert (table.markerAt m.timestamp) o) where
  segments := by
    intro e he
    rcases mem_of_mem_upsert he with rfl | he
    · exact hm
    · exact h.segments e he
  found := by
    intro timestamp o' htime ho
    rw [Storage.Objects.find?_insert] at ho
    split at ho
    · rename_i hpath
      exact ⟨m, mem_upsert_self t m, (Table.markerAt_inj hpath).2.symm⟩
    · obtain ⟨e, he, rfl⟩ := h.found timestamp o' htime ho
      exact exists_mem_upsert m he

/-- A view that was loaded has all timestamps whose markers are stored. -/
theorem of_loads {task : Nat} {h h' : History} {own : List Exchange}
    (hr : History.Runs task h own h') (hl : Session.Loads table t own) :
    t.Knows table h.objects where
  segments := fun e he => Timestamp.isSegment_of_isValid (hl.isNamed e he)
  found := by
    intro timestamp o htime ho
    obtain ⟨hidle, found, markers, hfound, hall, rfl⟩ := hl
    obtain ⟨-, -, hleads⟩ := hr.leads_of_idle hidle.not_write
    have hperm : found.Perm (h.objects.list (table.place Table.timelineDirectory)) :=
      (hleads _ hfound).1
    have hsearched := (Storage.Objects.mem_searched hperm).2
      ⟨table.isSearched_markerPath timestamp, o, ho⟩
    obtain ⟨m, hm, hname, -⟩ := Session.exists_mem_readAt hall hsearched
    rw [Table.stem?_markerPath htime] at hname
    have htext : timestamp.text = m.timestamp.text := String.toList_inj.1 (Option.some.inj hname)
    exact ⟨m, mem_ofEntries.2 hm, (congrArg Timestamp.mk htext).symm⟩

end Knows
end Timeline

/-- The timestamps that the call names can be told from the paths of their markers. -/
def Operation.IsPlaced : Operation → Prop
  | append instant .. | transition instant .. => instant.timestamp.IsSegment
  | _ => True

namespace Session

variable {table : Table} {v w : Timeline} {s s' : Storage.Objects} {task : Nat} {h : History}
  {instant : Instant}

/-- **A call that gives a result keeps all stored timestamps on the view.** -/
theorem safe_knows {op : Operation} (ho : op.IsSession) (hp : op.IsPlaced)
    (hv : v.Knows table h.objects) :
    (op.call table).Safe (History.Step task) (fun _ => True) (fun _ _ => True)
      (fun _ w h' => w.Knows table h'.objects) v h := by
  cases op with
  | refresh =>
    refine Call.Safe.bind ((safe_runs safe_refresh).mono (fun _ h => h) (fun _ _ _ => trivial)
      fun _ _ _ hg => hg) ?_
    rintro _ w h' ⟨own, hr, hl⟩
    have hsame : h'.objects = h.objects := (hr.leads_of_idle hl.1.not_write).1
    exact Call.safe_pure (hsame ▸ .of_loads hr hl)
  | append instant details requestedAt =>
    refine Call.Safe.bind ((safe_append_inserts (m := ⟨instant, details, requestedAt⟩)).mono
      (fun _ h => h) (fun _ _ _ => trivial) fun _ _ _ hg => hg) ?_
    rintro _ w h' ⟨-, -, rfl, version, hobjects⟩
    refine Call.safe_pure ?_
    rw [hobjects]
    exact hv.write (m := ⟨instant, details, requestedAt⟩) hp _
  | transition instant target details =>
    refine Call.Safe.bind ((safe_runs (safe_transition instant target details)).mono
      (fun _ h => h) (fun _ _ _ => trivial) fun _ _ _ hg => hg) ?_
    rintro _ w h' ⟨own, hr, -, -, current, m, rfl, hm⟩
    obtain ⟨-, ⟨version, hobjects⟩, -⟩ := hm.of_runs hr
    refine Call.safe_pure ?_
    rw [hobjects]
    exact hv.write (hm.timestamp ▸ hp) _
  | _ => cases ho

/-- A requested instant after all others is not refused as out of order. -/
theorem refusal?_ne_outOfOrder {e : Error} (hs : instant.state = .requested)
    (hnew : ∀ x ∈ v.entries, x.timestamp < instant.timestamp) (hr : refusal? v instant = some e)
    (timestamp last : Timestamp) : e ≠ .outOfOrder timestamp last := by
  unfold refusal? at hr
  rw [if_neg (not_not.2 hs)] at hr
  split at hr
  · rename_i latest hlast
    rw [if_neg (Timestamp.not_le.2 ((Timeline.lt_iff_of_last? hlast).1 hnew))] at hr
    split at hr
    · obtain ⟨pending, -, rfl⟩ := Option.map_eq_some_iff.1 hr
      exact fun he => nomatch he
    · cases hr
  · cases hr

/-- **Where a view has all stored timestamps, what comes after them is not out of order.** -/
theorem safe_append_ne_outOfOrder (hv : v.Knows table h.objects) (hs : instant.state = .requested)
    (hp : instant.timestamp.IsSegment) (hnew : ∀ x ∈ v.entries, x.timestamp < instant.timestamp)
    (details : Details) (requestedAt : Option Moment) :
    (append table instant details requestedAt).Safe (History.Step task) (fun _ => True)
      (fun e _ => ∀ timestamp last, e ≠ .outOfOrder timestamp last) (fun _ _ _ => True) v h := by
  have hstorage : ∀ (e : StorageError) (timestamp last : Timestamp),
      Error.storage e ≠ .outOfOrder timestamp last := fun _ _ _ he => nomatch he
  unfold append
  refine Call.safe_view ?_
  split
  · rename_i e hr
    exact Call.safe_throw (refusal?_ne_outOfOrder hs hnew hr)
  refine Call.Safe.bind (g := fun written _ _ => ∃ version, written = .stored version) ?_ ?_
  · refine safe_put trivial hstorage ?_
    rintro (e | version | version) h' hstep
    · exact hstorage e
    · exact ⟨version, rfl⟩
    · -- a conflict would be with a marker whose timestamp is on the view
      have hput := hstep.leads.put
      rw [Storage.Objects.put] at hput
      cases ho : h.objects.find? (table.markerAt instant.timestamp) with
      | none =>
        change h.objects.find? (table.place (Table.markerPath instant.timestamp.text)) = none at ho
        rw [ho] at hput
        cases congrArg Prod.fst hput
      | some o =>
        obtain ⟨x, hx, ht⟩ := hv.found _ o hp ho
        exact absurd ht (Timestamp.ne_of_lt (hnew x hx))
  · rintro _ w h' ⟨version, rfl⟩
    exact Call.safe_log (Call.safe_modify (Call.safe_pure trivial))

/-- What a session has come to while nobody else wrote to its table: its view, and what is stored
now. It may begin with whatever objects are stored. Among its calls are appends of new instants, at
the times that the clock gives. -/
inductive Generates (table : Table) : Timeline → Storage.Objects → Prop where
  | opens {base s : Storage.Objects} {v : Timeline} (hl : (load table).Leads base (.ok v) s) :
      Generates table v s
  | appends {v w : Timeline} {s s' : Storage.Objects} {now : Moment} {action : Action}
      {details : Details} {requestedAt : Option Moment} {r : Except Error Reply}
      (h : Generates table v s)
      (hc : (((Operation.append (.requested (v.newTimestamp now) action) details requestedAt).call
        table).program v).Leads s (r, w) s') : Generates table w s'
  | calls {v w : Timeline} {s s' : Storage.Objects} {op : Operation} {r : Except Error Reply}
      (h : Generates table v s) (ho : op.IsSession) (hp : op.IsPlaced)
      (hc : ((op.call table).program v).Leads s (r, w) s') : Generates table w s'

/-- A session that opens finds all stored timestamps. -/
theorem knows_of_opens {base : Storage.Objects} (hl : (load table).Leads base (.ok v) s) :
    v.Knows table s := by
  obtain ⟨rfl, own, h, hr, hl⟩ := exists_runs_of_opens hl
  exact .of_loads hr hl

/-- A session call leaves a view that knows the table knowing it. -/
theorem knows_of_call {op : Operation} {r : Except Error Reply} (ho : op.IsSession)
    (hp : op.IsPlaced) (hv : v.Knows table s)
    (hc : ((op.call table).program v).Leads s (r, w) s') : w.Knows table s' := by
  cases r with
  | error e =>
    obtain ⟨rfl, rfl⟩ := eq_of_fails ho hc
    exact hv
  | ok r =>
    have hsafe : (op.call table).Safe (History.Step 0) (fun _ => True) (fun _ _ => True)
        (fun _ w h' => w.Knows table h'.objects) v ⟨[], s⟩ := safe_knows ho hp hv
    obtain ⟨h', rfl, hw⟩ := hsafe.of_leads rfl hc
    exact hw

/-- A view that timestamps are generated from knows the table. -/
theorem Generates.knows (h : Generates table v s) : v.Knows table s := by
  induction h with
  | opens hl => exact knows_of_opens hl
  | @appends v w s s' now action details requestedAt r _ hc ih =>
    have ho : (Operation.append (.requested (v.newTimestamp now) action) details
      requestedAt).IsSession := trivial
    exact knows_of_call ho (ih.isSegment_newTimestamp now) ih hc
  | calls _ ho hp hc ih => exact knows_of_call ho hp ih hc

/-- **A new timestamp comes after all others of the view,** unless timestamps are exhausted. So
whatever the clock shows, what a session appends at a new timestamp is not refused as out of
order. -/
theorem advances :
    (∀ (t : Timeline) (now : Moment),
      (∀ e ∈ t.entries, e.timestamp < t.newTimestamp now) ↔ ¬t.IsExhausted now) ∧
    ∀ (table : Table) (v : Timeline) (s : Storage.Objects), Generates table v s →
      ∀ (now : Moment) action details requestedAt e w s', ¬v.IsExhausted now →
        (((Operation.append (.requested (v.newTimestamp now) action) details requestedAt).call
          table).program v).Leads s (.error e, w) s' →
        ∀ timestamp last, e ≠ .outOfOrder timestamp last := by
  refine ⟨fun t now => Timeline.lt_newTimestamp_iff, ?_⟩
  intro table v s hg now action details requestedAt e w s' hnot hc
  have hv := hg.knows
  have happend : ((Operation.append (.requested (v.newTimestamp now) action) details
      requestedAt).call table).Safe (History.Step 0) (fun _ => True)
        (fun e _ => ∀ timestamp last, e ≠ .outOfOrder timestamp last) (fun _ _ _ => True) v
        ⟨[], s⟩ := by
    have hi : (Instant.requested (v.newTimestamp now) action).state = .requested := rfl
    refine Call.Safe.bind (safe_append_ne_outOfOrder (h := ⟨[], s⟩) hv hi
      (hv.isSegment_newTimestamp now) (Timeline.lt_newTimestamp_iff.2 hnot) details requestedAt) ?_
    exact fun _ _ _ _ => Call.safe_pure trivial
  obtain ⟨h', -, he⟩ := happend.of_leads rfl hc
  exact he

/-- The clock stands still between two compactions. The second one has a later timestamp, and is
refused since the first one is outstanding. -/
theorem advances_of_stalled :
    ∃ v s e w s' now, Generates .sample v s ∧ v.entries.length = 1 ∧
      (∀ x ∈ v.entries, x.timestamp = .ofMoment now ∧ x.timestamp < v.newTimestamp now) ∧
      (((Operation.append (.requested (v.newTimestamp now) .compaction) .empty none).call
        .sample).program v).Leads s (.error e, w) s' ∧
      ∀ timestamp last, e ≠ .outOfOrder timestamp last := by
  let now : Moment := ⟨0, 0, by decide⟩
  let compact (v : Timeline) : Operation :=
    .append (.requested (v.newTimestamp now) .compaction) .empty none
  let run (v : Timeline) (s : Scene) : (Except Error Reply × Timeline) × Scene :=
    (((compact v).call .sample).program v).run Calm.plain.answer s
  have hopens : Generates .sample .empty .empty := by
    have hl := Calm.plain.leads_run (load .sample) ⟨.empty, []⟩
    rw [(Timeline.IsStoredIn.nothing .sample).load .plain (s := ⟨.empty, []⟩)] at hl
    exact .opens hl
  have hrun : ∀ v s, (((compact v).call .sample).program v).Leads s.objects (run v s).1
      (run v s).2.objects := fun v s => Calm.plain.leads_run _ s
  obtain ⟨x, hx⟩ : ∃ x, x = run .empty ⟨.empty, []⟩ := ⟨_, rfl⟩
  obtain ⟨hlength, htimes⟩ : x.1.2.entries.length = 1 ∧ ∀ e ∈ x.1.2.entries,
      e.timestamp = .ofMoment now ∧ e.timestamp < x.1.2.newTimestamp now := by
    rw [hx]
    decide +kernel
  have hfails : (run x.1.2 x.2).1.1.isOk = false := by
    rw [hx]
    decide +kernel
  have hfirst := hrun .empty ⟨.empty, []⟩
  rw [← hx] at hfirst
  obtain ⟨⟨r, v⟩, s⟩ := x
  have hreaches : Generates .sample v s.objects := hopens.appends hfirst
  have hnot : ¬v.IsExhausted now := (advances.1 v now).1 fun e he => (htimes e he).2
  have hsecond := hrun v s
  change (run v s).1.1.isOk = false at hfails
  generalize run v s = y at hsecond hfails
  obtain ⟨⟨_ | _, w⟩, s'⟩ := y
  · rename_i e
    exact ⟨v, s.objects, e, w, s'.objects, now, hreaches, hlength, htimes, hsecond,
      advances.2 .sample v s.objects hreaches now .compaction .empty none e w s'.objects hnot
        hsecond⟩
  · cases hfails

end Session
end CommitTimeline
