/-
# The view of the only session

A session opens a table where no markers are, and then refreshes, appends and transitions,
one call after the other, while nobody else writes there. Storage may fail at any request
(`Session.Reaches`). After every call the view of the session is the timeline that is
stored, so it is what any other session has for its view that opens in calm; and an append
or a transition that fails has changed neither the view nor any object
(`Session.coherent`).

The two are kept in step in different ways: what is stored is replaced whole by a refresh,
and one marker at a time by a write (`Timeline.IsStoredIn.write`). A call that fails has
not written (`Session.safe_append`, `Session.safe_transition`), and what it does to the
view comes last (`Session.restores_append`, `Session.restores_transition`).
-/

import CommitTimeline.Proofs.Compaction.Recovery
import CommitTimeline.Proofs.Program.Leads
import CommitTimeline.Proofs.Session.Lifecycle
import CommitTimeline.Proofs.Session.Solitary

namespace CommitTimeline

namespace Session

variable {table : Table} {v w t : Timeline} {instant : Instant} {base s s' : Storage.Objects}

/-- Reading one marker leaves the view as it is. -/
theorem keeps_readMarker (path : String) : (readMarker table path).Keeps v := by
  unfold readMarker
  refine Call.Keeps.bind (Call.keeps_storage _) ?_
  intro bytes
  split
  · exact Call.keeps_pure _
  · exact Call.keeps_throw _

/-- Reading markers leaves the view as it is. -/
theorem keeps_readMarkers (paths : List String) : (readMarkers table paths).Keeps v := by
  induction paths with
  | nil => exact Call.keeps_pure _
  | cons path paths ih =>
    unfold readMarkers
    split
    · exact ih
    · refine Call.Keeps.bind (keeps_readMarker path) ?_
      intro marker
      split
      · exact Call.Keeps.bind ih fun _ => Call.keeps_pure _
      · exact Call.keeps_throw _

/-- A refresh that fails leaves the view as it was. -/
theorem restores_refresh : (refresh table).Restores v := by
  unfold refresh
  refine Call.Restores.bind (Call.keeps_storage _) ?_
  intro listed
  refine Call.Restores.bind (keeps_readMarkers _) ?_
  intro markers
  exact Call.Restores.bind (Call.keeps_log _) fun _ => Call.restores_set _

/-- An append that fails leaves the view as it was. -/
theorem restores_append (details : Details) (requestedAt : Option Moment) :
    (append table instant details requestedAt).Restores v := by
  unfold append
  refine Call.Restores.bind Call.keeps_view ?_
  intro view
  split
  · exact Call.restores_throw _
  · refine Call.Restores.bind (Call.keeps_storage _) ?_
    rintro (version | version)
    · exact Call.Restores.bind (Call.keeps_log _) fun _ => Call.restores_modify _ _
    · exact Call.restores_throw _

/-- A transition that fails leaves the view as it was. -/
theorem restores_transition (target : State) (details : Option Details) :
    (transition table instant target details).Restores v := by
  unfold transition
  split
  · refine Call.Restores.bind (Call.keeps_storage _) ?_
    rintro (_ | known)
    · exact Call.restores_throw _
    refine Call.Restores.bind (keeps_readMarker _) ?_
    intro current
    split
    · refine Call.Restores.bind (Call.keeps_storage _) ?_
      rintro (version | version)
      · exact Call.Restores.bind (Call.keeps_log _) fun _ => Call.restores_modify _ _
      · refine Call.Restores.bind (Call.keeps_count _) fun _ => ?_
        refine Call.Restores.bind (keeps_readMarker _) fun _ => ?_
        exact Call.Restores.bind (Call.keeps_log _) fun _ => Call.restores_throw _
    · exact Call.Restores.bind (Call.keeps_count _) fun _ => Call.restores_throw _
  · exact Call.restores_throw _

/-- A call that fails leaves the view as it was. -/
theorem restores_call {op : Operation} (ho : op.IsSession) : (op.call table).Restores v := by
  cases op with
  | refresh => exact restores_refresh.map _
  | append instant details requestedAt => exact (restores_append _ _).map _
  | transition instant target details => exact (restores_transition _ _).map _
  | _ => cases ho

/-- **A call that fails has changed nothing:** neither the view nor any object. -/
theorem eq_of_fails {op : Operation} (ho : op.IsSession) {e : Error}
    (hc : ((op.call table).program v).Leads s (.error e, w) s') : w = v ∧ s' = s := by
  have hobjects : (op.call table).Safe (History.Step 0) (fun _ => True)
      (fun _ h' => h'.objects = s) (fun _ _ _ => True) v ⟨[], s⟩ :=
    (safe_runs (h := ⟨[], s⟩) (Operation.safe_does ho)).imp
      fun _ _ _ _ => trivial
  obtain ⟨h', rfl, hobjects⟩ := hobjects.of_leads rfl hc
  exact ⟨Program.Yields.of_leads (restores_call ho) hc e rfl, hobjects⟩

/-- What the only session of a table has come to, from what was stored when it opened: its view,
and what is stored now. -/
inductive Reaches (table : Table) (base : Storage.Objects) : Timeline → Storage.Objects → Prop where
  | opens {v : Timeline} {s : Storage.Objects} (hl : (load table).Leads base (.ok v) s) :
      Reaches table base v s
  | calls {v w : Timeline} {s s' : Storage.Objects} {op : Operation} {r : Except Error Reply}
      (h : Reaches table base v s) (ho : op.IsSession) (hr : op.IsRegular)
      (hc : ((op.call table).program v).Leads s (r, w) s') : Reaches table base w s'

/-- A session that opens has loaded its view, and changed nothing. -/
theorem exists_runs_of_opens (hl : (load table).Leads base (.ok v) s) :
    s = base ∧ ∃ own h, History.Runs 0 ⟨[], base⟩ own h ∧ Loads table v own := by
  have hload : (load table).Safe (History.Step 0) (fun _ => True)
      (fun r h => ∀ w, r = .ok w →
        h.objects = base ∧ ∃ own, History.Runs 0 ⟨[], base⟩ own h ∧ Loads table w own)
      ⟨[], base⟩ := by
    refine Program.Safe.bind (safe_runs (h := ⟨[], base⟩) safe_refresh) ?_
    rintro ⟨e | _, w⟩ h hends
    · refine .done ?_
      intro w hw
      cases hw
    · obtain ⟨own, hr, hl⟩ := hends
      refine .done ?_
      rintro _ ⟨⟩
      exact ⟨(hr.leads_of_idle hl.1.not_write).1, own, hr, hl⟩
  obtain ⟨h, rfl, hv⟩ := hload.of_leads rfl hl
  obtain ⟨hs, own, hr, hl⟩ := hv v rfl
  exact ⟨hs, own, h, hr, hl⟩

/-- A session that opens finds what is stored. -/
theorem eq_of_opens (ht : t.IsStoredIn table base) (hl : (load table).Leads base (.ok v) s) :
    v = t ∧ s = base := by
  obtain ⟨hs, own, h, hr, hl⟩ := exists_runs_of_opens hl
  exact ⟨ht.eq_of_loads hr hl, hs⟩

/-- **A call keeps the view in step with what is stored.** -/
theorem isStoredIn_of_call {op : Operation} (ho : op.IsSession) (hr : op.IsRegular)
    (hv : v.IsStoredIn table s) {r : Reply}
    (hc : ((op.call table).program v).Leads s (.ok r, w) s') : w.IsStoredIn table s' := by
  have hcall : (op.call table).Safe (History.Step 0) (fun _ => True)
      (fun _ h' => h'.objects = s) (fun _ w h' => w.IsStoredIn table h'.objects) v ⟨[], s⟩ := by
    cases op with
    | refresh =>
      refine Call.Safe.bind (hv.safe_refresh (h := ⟨[], s⟩)) ?_
      rintro _ w h' ⟨rfl, hobjects⟩
      exact Call.safe_pure (hobjects ▸ hv)
    | append instant details requestedAt =>
      refine Call.Safe.bind (hv.safe_append (h := ⟨[], s⟩)
        (m := ⟨instant, details, requestedAt⟩) hr) ?_
      rintro i w h' ⟨-, -, rfl, hp⟩
      exact Call.safe_pure hp.stored
    | transition instant target details =>
      refine Call.Safe.bind (hv.safe_transition (h := ⟨[], s⟩) instant target hr.2) ?_
      rintro i w h' ⟨-, -, e, -, -, rfl, hp⟩
      exact Call.safe_pure hp.stored
    | _ => cases ho
  obtain ⟨h', rfl, hw⟩ := hcall.of_leads rfl hc
  exact hw

/-- A session opens where nothing is stored at all, and has nothing in its view. -/
theorem Reaches.nothing (table : Table) : Reaches table .empty .empty .empty := by
  have hl := Calm.plain.leads_run (load table) ⟨.empty, []⟩
  rw [(Timeline.IsStoredIn.nothing table).load .plain (s := ⟨.empty, []⟩)] at hl
  exact .opens hl

/-- While a session is the only one, its view is what is stored. -/
theorem Reaches.isStoredIn
    (hempty : ∀ path, table.IsSearched path → base.find? (table.place path) = none)
    (h : Reaches table base v s) : v.IsStoredIn table s := by
  induction h with
  | opens hl =>
    have hbase := Timeline.IsStoredIn.empty hempty
    obtain ⟨rfl, rfl⟩ := eq_of_opens hbase hl
    exact hbase
  | @calls v w s s' op r h ho hr hc ih =>
    cases r with
    | error e =>
      obtain ⟨rfl, rfl⟩ := eq_of_fails ho hc
      exact ih
    | ok r => exact isStoredIn_of_call ho hr ih hc

/-- **The view of the only session is what is stored,** after every call: it is what a session
finds that opens in calm. And a call that fails changes neither of them. -/
theorem coherent (hempty : ∀ path, table.IsSearched path → base.find? (table.place path) = none)
    (h : Reaches table base v s) :
    (∀ (o : Calm) merges, (load table).run o.answer ⟨s, merges⟩ = (.ok v, ⟨s, merges⟩)) ∧
      ∀ (op : Operation) e w s', op.IsSession →
        ((op.call table).program v).Leads s (.error e, w) s' →
        w = v ∧ s' = s := by
  constructor
  · intro o merges
    exact (h.isStoredIn hempty).load o (s := ⟨s, merges⟩)
  · intro op e w s' ho hc
    exact eq_of_fails ho hc

/-- An outside in which nothing can be written. -/
def unwritable (r : Request) (s : Scene) : r.Answer × Scene :=
  match r with
  | .storage (.put ..) => (.error .lockPoisoned, s)
  | r => Calm.plain.answer r s

/-- Storage in which nothing can be written answers as a failing storage may. -/
theorem leads_unwritable (r : Request) (s : Scene) :
    Exchange.Leads s.objects ⟨r, (unwritable r s).1⟩ (unwritable r s).2.objects := by
  unfold unwritable
  split
  · rfl
  · exact Calm.Step.leads (o := .plain) rfl

/-- A delta commit was requested, and then nothing could be written to start it. -/
theorem coherent_of_failure :
    ∃ v s e w s', Reaches .sample .empty v s ∧ v.entries.length = 1 ∧
      (((Operation.transition (.requested ⟨"001"⟩ .deltaCommit) .inflight none).call
        .sample).program v).Leads s (.error e, w) s' ∧
      (∀ (o : Calm) merges, (load .sample).run o.answer ⟨s, merges⟩ = (.ok v, ⟨s, merges⟩)) ∧
      w = v ∧ s' = s := by
  let append : Operation := .append (.requested ⟨"001"⟩ .deltaCommit) .empty none
  let start : Operation := .transition (.requested ⟨"001"⟩ .deltaCommit) .inflight none
  have happend := Calm.plain.leads_run ((append.call .sample).program .empty) ⟨.empty, []⟩
  have hview : (((append.call .sample).program .empty).run Calm.plain.answer
      ⟨.empty, []⟩).1.2.entries.length = 1 := by
    decide +kernel
  have hfails : ((((start.call .sample).program (((append.call .sample).program .empty).run
      Calm.plain.answer ⟨.empty, []⟩).1.2).run unwritable (((append.call .sample).program
        .empty).run Calm.plain.answer ⟨.empty, []⟩).2).1.1).isOk = false := by
    decide +kernel
  generalize ((append.call .sample).program .empty).run Calm.plain.answer ⟨.empty, []⟩ = x
    at happend hview hfails
  obtain ⟨⟨r, v⟩, s⟩ := x
  have hsession : append.IsSession := trivial
  have hregular : append.IsRegular := ⟨by decide, trivial⟩
  have hreaches : Reaches .sample .empty v s.objects :=
    (Reaches.nothing .sample).calls hsession hregular happend
  have hstart := Program.leads_run leads_unwritable ((start.call .sample).program v) s
  generalize ((start.call .sample).program v).run unwritable s = y at hstart hfails
  obtain ⟨⟨_ | _, w⟩, s'⟩ := y
  · rename_i e
    obtain ⟨hloads, hatomic⟩ := coherent (fun _ _ => Storage.Objects.find?_empty _) hreaches
    exact ⟨v, s.objects, e, w, s'.objects, hreaches, hview, hstart, hloads,
      hatomic start e w s'.objects trivial hstart⟩
  · cases hfails

end Session
end CommitTimeline
