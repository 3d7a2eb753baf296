/-
# What is done of one marker

The deeds of a history are what was written at the place of one marker and what the writer was
asked to ingest (`History.deeds`). A call of a session that fails has no deeds and changes no
object; one that gives a result has at most one deed, which is what it writes
(`Session.safe_append_wrote`, `Session.safe_transition_wrote`). Coordinators leave a marker alone
that is no compaction (`Compaction.safe_run_agrees`).
-/

import CommitTimeline.Proofs.Compaction.Upkeep
import CommitTimeline.Proofs.Session.Solitary

namespace CommitTimeline

/-- What has been done of what matters to a delta commit: its marker was written, or the writer was
asked to ingest. -/
inductive Deed where
  | wrote (data : Bytes)
  | ingested (timestamp : Timestamp) (batch : Batch) (answer : Except Error CommitMetadata)

/-- What an exchange does, if the marker lies at this path. -/
def Exchange.deed? (path : String) : Exchange → Option Deed
  | ⟨.ingest timestamp batch, x⟩ => some (.ingested timestamp batch x)
  | e => match e.write? with
    | some (p, data) => if p = path then some (.wrote data) else none
    | none => none

/-- What writes nothing is no deed. -/
theorem Exchange.deed?_of_idle {e : Exchange} (h : e.IsIdle) (path : String) :
    e.deed? path = none := by
  obtain ⟨hw, r, x, rfl⟩ := h
  rw [deed?, hw]
  rintro _ _ _ ⟨⟩

/-- A write to the place of the marker is a deed. -/
theorem Exchange.deed?_stored (path : String) (data : Bytes) (condition : Storage.Precondition)
    (version : String) : (stored path data condition version).deed? path = some (.wrote data) :=
  if_pos rfl

/-- A write to another place is no deed. -/
theorem Exchange.deed?_stored_of_ne {path p : String} (h : p ≠ path) (data : Bytes)
    (condition : Storage.Precondition) (version : String) :
    (stored p data condition version).deed? path = none :=
  if_neg h

namespace History

variable {task : Nat} {h h' : History} {own : List Exchange} {path : String}

/-- What has been done, the latest first. -/
def deeds (path : String) (h : History) : List Deed :=
  h.acts.filterMap fun a => a.exchange.deed? path

/-- What a task does while no other one asks comes on top. -/
theorem deeds_of_runs (hr : Runs task h own h') (path : String) :
    h'.deeds path = own.filterMap (Exchange.deed? path) ++ h.deeds path := by
  rw [deeds, hr.acts, List.filterMap_append, List.filterMap_map]
  rfl

/-- Among exchanges that write nothing there are no deeds. -/
theorem filterMap_deed?_of_idle (hidle : Session.Idle own) (path : String) :
    own.filterMap (Exchange.deed? path) = [] :=
  List.filterMap_eq_nil_iff.2 fun e he => Exchange.deed?_of_idle (hidle e he) path

/-- At one path nothing has changed, and nothing was ingested. -/
structure Agrees (h : History) (path : String) (h' : History) : Prop where
  objects : h'.objects.find? path = h.objects.find? path
  deeds : h'.deeds path = h.deeds path

/-- A history agrees with itself. -/
theorem Agrees.refl (h : History) (path : String) : h.Agrees path h :=
  ⟨rfl, rfl⟩

/-- Two histories agree at a path if both agree with a third one. -/
theorem Agrees.trans {h'' : History} (ha : h.Agrees path h') (ha' : h'.Agrees path h'') :
    h.Agrees path h'' :=
  ⟨ha'.objects.trans ha.objects, ha'.deeds.trans ha.deeds⟩

/-- Nothing was written or ingested. -/
def Rests (h h' : History) : Prop :=
  ∀ path, h.Agrees path h'

/-- One object was written, and nothing was ingested. -/
structure Wrote (h : History) (place : String) (data : Bytes) (h' : History) : Prop where
  objects : ∃ version, h'.objects.find? place = some ⟨data, version⟩
  deeds : h'.deeds place = .wrote data :: h.deeds place
  others : ∀ path, path ≠ place → h.Agrees path h'

/-- Where nothing was written, all rests. -/
theorem rests_of_idle (hr : Runs task h own h') (hidle : Session.Idle own) : h.Rests h' := by
  intro path
  constructor
  · rw [(hr.leads_of_idle hidle.not_write).1]
  · rw [deeds_of_runs hr, filterMap_deed?_of_idle hidle, List.nil_append]

/-- What agrees with an earlier history agrees with it until a call has done something. -/
theorem Agrees.safe {α : Type} {c : Call α} {h₀ : History} {v : Timeline}
    {gives gives' : α → Timeline → History → Prop} (ha : h₀.Agrees path h)
    (hc : c.Safe (Step task) h.Rests (fun _ => h.Rests) gives v h)
    (hg : ∀ a w h', gives a w h' → gives' a w h') :
    c.Safe (Step task) (h₀.Agrees path) (fun _ => h₀.Agrees path) gives' v h :=
  hc.mono (fun _ hr => ha.trans (hr path)) (fun _ _ hr => ha.trans (hr path)) hg

/-- Where the last exchange is the only one that wrote, it tells what was done. -/
theorem wrote_of_runs {place : String} {data : Bytes} {condition : Storage.Precondition}
    {version : String} (hr : Runs task h (.stored place data condition version :: own) h')
    (hidle : Session.Idle own) : h.Wrote place data h' := by
  have hfind : ∃ version, ∀ path,
      h'.objects.find? path = if path = place then some ⟨data, version⟩
        else h.objects.find? path := by
    cases hr with
    | cons hr hs =>
      rw [hs.leads.stored.2, (hr.leads_of_idle hidle.not_write).1]
      exact ⟨_, fun path => Storage.Objects.find?_insert ..⟩
  obtain ⟨version', hfind⟩ := hfind
  constructor
  · exact ⟨version', (hfind place).trans (if_pos rfl)⟩
  · rw [deeds_of_runs hr, List.filterMap_cons_some (Exchange.deed?_stored ..),
      filterMap_deed?_of_idle hidle]
    rfl
  · intro path hne
    refine ⟨(hfind path).trans (if_neg hne), ?_⟩
    rw [deeds_of_runs hr, List.filterMap_cons_none (Exchange.deed?_stored_of_ne hne.symm ..),
      filterMap_deed?_of_idle hidle, List.nil_append]

end History

namespace Session

variable {task : Nat} {h : History} {v : Timeline} {table : Table}

/-- A call that writes nothing unless it gives a result has done nothing until then. -/
theorem safe_rests {α : Type} {c : Call α} {gives : α → Timeline → List Exchange → Prop}
    (hc : c.Safe Alone Idle (fun _ => Idle) gives v []) :
    c.Safe (History.Step task) h.Rests (fun _ => h.Rests)
      (fun a w h' => ∃ own, History.Runs task h own h' ∧ gives a w own) v h :=
  History.safe_runs_of_idle (fun _ _ hr hi => History.rests_of_idle hr hi) hc

/-- While a refresh is under way all rests. -/
theorem safe_refresh_rests :
    (refresh table).Safe (History.Step task) h.Rests (fun _ => h.Rests)
      (fun _ _ => h.Rests) v h := by
  refine (safe_rests safe_refresh).imp ?_
  rintro _ w h' ⟨own, hr, hl⟩
  exact History.rests_of_idle hr hl.1

/-- An append writes its marker where nothing was, or it fails and does nothing. -/
theorem safe_append_wrote (m : Marker) :
    (append table m.instant m.details m.requestedAt).Safe (History.Step task) h.Rests
      (fun _ => h.Rests)
      (fun i w h' => i = m.instant ∧ w = v.upsert m ∧
        h.objects.find? (table.markerAt m.timestamp) = none ∧
        h.Wrote (table.markerAt m.timestamp) m.encode h') v h := by
  refine (safe_rests (safe_append _ _ _)).imp ?_
  rintro i w h' ⟨own, hr, rfl, -, rfl, hc⟩
  have hnone := (hc.of_runs hr).1
  obtain ⟨version, rfl⟩ := hc
  exact ⟨rfl, rfl, hnone, History.wrote_of_runs hr idle_nil⟩

/-- A transition overwrites the marker that it finds, or it fails and does nothing. -/
theorem safe_transition_wrote (instant : Instant) (target : State) (details : Option Details) :
    (transition table instant target details).Safe (History.Step task) h.Rests
      (fun _ => h.Rests)
      (fun i w h' => i = instant.moved target ∧ ∃ current m o,
        h.objects.find? (table.markerAt instant.timestamp) = some o ∧
        Marker.decode? o.data = some current ∧
        current.instant.action = instant.action ∧ w = v.upsert m ∧
        m = ⟨i, details.getD current.details, current.requestedAt⟩ ∧
        h.Wrote (table.markerAt instant.timestamp) m.encode h') v h := by
  refine (safe_rests (safe_transition _ _ _)).imp ?_
  rintro i w h' ⟨own, hr, rfl, -, current, m, rfl, hm⟩
  obtain ⟨⟨data, version, hf, hd⟩, -⟩ := hm.of_runs hr
  refine ⟨rfl, current, m, _, hf, hd, hm.action, rfl, hm.marker, ?_⟩
  obtain ⟨known, data, version, -, rfl⟩ := hm.exchanges
  exact History.wrote_of_runs hr ((idle_nil.cons_storage rfl).cons_storage rfl)

/-- A transition moves the marker that lies at its place, or it fails and does nothing. -/
theorem safe_transition_of_find? {m : Marker} {version : Nat} (target : State)
    (details : Option Details)
    (hplace : h.objects.find? (table.markerAt m.timestamp) = some ⟨m.encode, version⟩) :
    (transition table m.instant target details).Safe (History.Step task) h.Rests
      (fun _ => h.Rests)
      (fun i _ h' => i = (m.after target details).instant ∧
        h.Wrote (table.markerAt m.timestamp) (m.after target details).encode h') v h := by
  refine (safe_transition_wrote m.instant target details).imp ?_
  rintro i w h' ⟨rfl, current, m', o, hf, hd, -, -, rfl, hwrote⟩
  obtain rfl := Option.some.inj (hplace.symm.trans hf)
  obtain rfl : current = m := Marker.eq_of_decode?_encode hd
  exact ⟨rfl, hwrote⟩

end Session

namespace Compaction

open Session

variable {table : Table} {path : String} {o : Storage.Object} {h : History}
  {v : Timeline} {task : Nat} {config : Config} {now : Moment}

/-- **Coordinators leave alone what lies at a path,** if it is no compaction. -/
theorem upholds_agrees (ho : h.objects.find? path = some o)
    (hm : ∀ m, Marker.decode? o.data = some m → m.instant.action ≠ .compaction) :
    Upholds (History.Step task) table (h.Agrees path) (fun _ => h.Agrees path)
      (fun _ => h.Agrees path) where
  known := id
  kept := id
  refresh := by
    intro v h₁ ha
    exact ha.safe safe_refresh_rests fun _ _ _ hr => ha.trans (hr path)
  merge := by
    intro v h₁ h₂ timestamp plan x ha hs
    refine ha.trans ⟨congrArg (·.find? path) (hs.leads.eq_of_idle rfl), ?_⟩
    cases hs
    exact List.filterMap_cons_none rfl
  compact := by
    intro v h₁ e target ha he haction
    refine ha.safe (safe_transition_wrote e.instant target none) ?_
    rintro i w h₂ ⟨rfl, current, m, o', hf, hd, hcurrent, rfl, rfl, hwrote⟩
    refine ⟨rfl, ha.trans (hwrote.others path ?_), _, Timeline.mem_upsert_self v _, rfl⟩
    -- a compaction was read where the transition writes
    rintro rfl
    obtain rfl : o = o' := Option.some.inj ((ha.objects.trans ho).symm.trans hf)
    exact hm current hd (hcurrent.trans haction)

/-- A compaction is scheduled at a place where nothing lies, so elsewhere all agrees. -/
theorem schedules_agrees (ho : h.objects.find? path = some o) :
    Schedules (History.Step task) table (h.Agrees path) (fun _ => h.Agrees path)
      (fun _ => h.Agrees path) (·.newTimestamp now) now := by
  intro v h₁ ha
  refine ha.safe (safe_append_wrote
    ⟨.requested (v.newTimestamp now) .compaction, .plan v.nextPlan, some now⟩) ?_
  rintro i w h₂ ⟨rfl, rfl, hnone, hwrote⟩
  refine ⟨rfl, ha.trans (hwrote.others path ?_), _, Timeline.mem_upsert_self v _, rfl⟩
  rintro rfl
  rw [ha.objects, ho] at hnone
  cases hnone

/-- A cycle leaves alone what lies at a path, if it is no compaction. -/
theorem safe_run_agrees (ho : h.objects.find? path = some o)
    (hm : ∀ m, Marker.decode? o.data = some m → m.instant.action ≠ .compaction) :
    (run table config now).Safe (History.Step task) (h.Agrees path) (fun _ => h.Agrees path)
      (fun _ _ => h.Agrees path) v h :=
  (upholds_agrees ho hm).safe_run (schedules_agrees ho) (.refl h path)

end Compaction

end CommitTimeline
