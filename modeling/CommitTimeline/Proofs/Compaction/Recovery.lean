/-
# Recovery

Any number of sessions make any calls, their requests interleave in any order, and each of
them may stop anywhere; what fails may be storage or the writer. Callers name timestamps
that they may name, and the time of day lies in a year of four digits. Then all that was
ever written are markers that can be read, each at its place (`Session.Tidy`), for a call
takes its timestamps from its caller, from the time or from what it has read.

So, wherever the calls stopped, what is stored are the markers of one timeline: a session
opens with it, and its retries in calm complete the outstanding compactions, the earliest
first, until none is left (`Pool.recovery`).
-/

import CommitTimeline.Proofs.Compaction.Retry
import CommitTimeline.Proofs.Compaction.Upkeep
import CommitTimeline.Proofs.Pool.Turns
import CommitTimeline.Proofs.Timestamp

namespace CommitTimeline

namespace Session

/-- All that was written are readable markers, each at its place. -/
def Tidy (table : Table) (own : List Exchange) : Prop :=
  ∀ e ∈ own, ∀ path data, e.write? = some (path, data) →
    ∃ m : Marker, m.IsReadable ∧ path = table.markerAt m.timestamp ∧ data = m.encode

variable {table : Table} {own l : List Exchange} {v : Timeline} {e : Exchange} {m : Marker}

/-- Where nothing was written, all is tidy. -/
theorem tidy_nil : Tidy table [] := by
  intro e he
  cases he

/-- What writes nothing leaves all tidy. -/
theorem Tidy.cons (h : Tidy table own) (he : e.write? = none) : Tidy table (e :: own) := by
  intro f hf path data hw
  rcases List.mem_cons.1 hf with rfl | hf
  · rw [he] at hw
    cases hw
  · exact h f hf path data hw

/-- Exchanges that write nothing leave all tidy. -/
theorem Tidy.append_idle (h : Tidy table own) (hl : Idle l) : Tidy table (l ++ own) := by
  intro f hf path data hw
  rcases List.mem_append.1 hf with hf | hf
  · rw [hl.not_write f hf] at hw
    cases hw
  · exact h f hf path data hw

/-- A readable marker at its place leaves all tidy. -/
theorem Tidy.stored (h : Tidy table own) (hm : m.IsReadable) {condition : Storage.Precondition}
    {version : String} :
    Tidy table (.stored (table.markerAt m.timestamp) m.encode condition version :: own) := by
  intro f hf path data hw
  rcases List.mem_cons.1 hf with rfl | hf
  · obtain ⟨rfl, rfl⟩ := Prod.mk.inj (Option.some.inj hw)
    exact ⟨m, hm, rfl, rfl⟩
  · exact h f hf path data hw

/-- What is read can be read again, so the view has timestamps that callers may name. -/
theorem Tidy.safe_refresh (h : Tidy table own) :
    (refresh table).Safe Alone (Tidy table) (fun _ => Tidy table)
      (fun _ w l => Tidy table l ∧ w.IsNamed) v own := by
  refine (safe_after_idle (fun _ => h.append_idle) Session.safe_refresh).imp ?_
  rintro _ w _ ⟨l', rfl, hl⟩
  exact ⟨h.append_idle hl.1, hl.isNamed⟩

/-- An append writes a readable marker if its timestamp is valid and its details can be read. -/
theorem Tidy.safe_append (h : Tidy table own) {instant : Instant} {details : Details}
    {requestedAt : Option Moment}
    (hv : refusal? v instant = none → instant.timestamp.IsValid) (hd : details.IsReadable) :
    (append table instant details requestedAt).Safe Alone (Tidy table) (fun _ => Tidy table)
      (fun i w l => i = instant ∧ i.timestamp.IsValid ∧ Tidy table l ∧
        (v.IsNamed → w.IsNamed) ∧ ∃ e ∈ w.entries, e.instant = i) v own := by
  refine (safe_after_idle (fun _ => h.append_idle)
    (Session.safe_append instant details requestedAt)).imp ?_
  rintro i w _ ⟨l', rfl, rfl, hr, rfl, version, rfl⟩
  have hm := hv hr
  refine ⟨rfl, hm, h.stored (m := ⟨i, details, requestedAt⟩) ⟨hm, hd⟩, ?_, _,
    Timeline.mem_upsert_self v _, rfl⟩
  intro hn
  exact hn.upsert hm

/-- The details of a moved marker were given, or were read. -/
theorem Tidy.safe_transition (h : Tidy table own) {instant : Instant} {target : State}
    {details : Option Details} (hv : instant.timestamp.IsValid)
    (hd : ∀ d ∈ details, d.IsReadable) :
    (transition table instant target details).Safe Alone (Tidy table) (fun _ => Tidy table)
      (fun i w l => i = instant.moved target ∧ Tidy table l ∧ (v.IsNamed → w.IsNamed) ∧
        ∃ e ∈ w.entries, e.instant = i) v own := by
  refine (safe_after_idle (fun _ => h.append_idle)
    (Session.safe_transition instant target details)).imp ?_
  rintro i w _ ⟨l', rfl, rfl, -, current, m, rfl, hm⟩
  obtain ⟨known, data, version, hdecode, ho⟩ := hm.exchanges
  have hm' : m.IsReadable := by
    rw [hm.marker]
    refine ⟨hv, ?_⟩
    cases details with
    | none => exact (Marker.isReadable_of_decode? hdecode).2
    | some d => exact hd d rfl
  have hread : Tidy table ([.read (table.markerAt instant.timestamp) data,
      .described (table.markerAt instant.timestamp) known] ++ own) :=
    h.append_idle ((idle_nil.cons_storage rfl).cons_storage rfl)
  refine ⟨rfl, ?_, fun hn => hn.upsert hm'.1, m, Timeline.mem_upsert_self v m, by rw [hm.marker]⟩
  rw [ho, ← hm.timestamp] at *
  exact hread.stored hm'

end Session

namespace Compaction

open Session

/-- All is tidy, and callers may name every timestamp of the view. -/
def Named (table : Table) (v : Timeline) (own : List Exchange) : Prop :=
  Tidy table own ∧ v.IsNamed

variable {table : Table} {v : Timeline} {own : List Exchange} {now : Moment}

/-- Refreshes and steps of compactions leave all tidy. -/
theorem upholds_tidy (table : Table) :
    Upholds Alone table (Tidy table) (Named table) (Named table) where
  known := id
  kept := And.left
  refresh := fun h => h.safe_refresh
  merge := by
    rintro v s _ timestamp plan x ⟨h, hn⟩ rfl
    exact ⟨h.cons rfl, hn⟩
  compact := by
    rintro v s e target ⟨h, hn⟩ he -
    refine (h.safe_transition (hn e he) ?_).imp ?_
    · intro d hd
      cases hd
    · rintro i w l ⟨hi, hl, hw, he'⟩
      exact ⟨hi, ⟨hl, hw hn⟩, he'⟩

/-- A compaction that is scheduled at a valid timestamp leaves all tidy. -/
theorem schedules_tidy {timestamp : Timeline → Timestamp}
    (ht : ∀ v : Timeline, v.IsNamed →
      Session.refusal? v (.requested (timestamp v) .compaction) = none →
      (timestamp v).IsValid) :
    Schedules Alone table (Tidy table) (Named table) (Named table) timestamp now := by
  rintro v s ⟨h, hn⟩
  have hplan : (Details.plan v.nextPlan).IsReadable := hn.isReadable_nextPlan
  refine (h.safe_append (ht v hn) hplan).imp ?_
  rintro i w l ⟨hi, -, hl, hw, he⟩
  exact ⟨hi, ⟨hl, hw hn⟩, he⟩

/-- A cycle leaves all tidy, at a moment that no leap second spoils. -/
theorem safe_run_tidy {config : Config} (hc : now.IsCommon) (h : Tidy table own) :
    (run table config now).Safe Alone (Tidy table) (fun _ => Tidy table)
      (fun _ w l => Named table w l) v own := by
  refine (upholds_tidy table).safe_run (schedules_tidy ?_) h
  intro v hn hr
  exact isValid_of_refusal? hn (.inr hc) rfl hr

end Compaction

namespace DeltaCommit

open Session

variable {table : Table} {v : Timeline} {own : List Exchange} {config : Config}
  {timestamp : Timestamp} {batch : Batch} {now : Moment}

/-- Writing a delta commit at a valid timestamp leaves all tidy. -/
theorem safe_writeDelta_tidy (h : Tidy table own)
    (hv : refusal? v (.requested timestamp .deltaCommit) = none → timestamp.IsValid) :
    (writeDelta table timestamp batch now).Safe Alone (Tidy table) (fun _ => Tidy table)
      (fun _ _ l => Tidy table l) v own := by
  refine Call.Safe.bind (h.safe_append hv trivial) ?_
  rintro i w l ⟨rfl, ht, hl, -⟩
  refine Call.Safe.bind (hl.safe_transition ht fun d hd => by cases hd) ?_
  rintro i w l ⟨rfl, hl, -⟩
  refine Call.safe_ingest hl ?_
  rintro x _ rfl
  replace hl : Tidy table (⟨.ingest timestamp batch, x⟩ :: l) := hl.cons rfl
  cases x with
  | error x => exact Call.safe_count (Call.safe_log (Call.safe_throw hl))
  | ok m =>
    refine Call.Safe.bind (hl.safe_transition ht ?_) ?_
    · rintro d ⟨⟩
      trivial
    · rintro i w l ⟨-, hl, -⟩
      exact Call.safe_count (Call.safe_log (Call.safe_pure hl))

/-- A delta commit and its cycle leave all tidy. -/
theorem safe_commit_tidy (hc : now.IsCommon) (h : Tidy table own)
    (hv : refusal? v (.requested timestamp .deltaCommit) = none → timestamp.IsValid) :
    (commit table config timestamp batch now).Safe Alone (Tidy table) (fun _ => Tidy table)
      (fun _ _ l => Tidy table l) v own := by
  refine Call.Safe.bind (Call.safe_within _ (safe_writeDelta_tidy h hv)) ?_
  rintro ⟨i, m⟩ w l hl
  dsimp only
  split
  · refine Call.Safe.bind (Compaction.safe_run_tidy hc hl) ?_
    rintro o w l ⟨hl, -⟩
    exact Call.safe_pure hl
  · exact Call.safe_pure hl

end DeltaCommit

namespace Operation

/-- Callers name timestamps that they may name, and the time lies in a year of four digits. -/
def IsRegular : Operation → Prop
  | append instant details _ => instant.timestamp.IsValid ∧ details.IsReadable
  | transition instant _ details => instant.timestamp.IsValid ∧ ∀ d ∈ details, d.IsReadable
  | run _ now | start _ _ now => now.IsCommon
  | scheduleAt _ timestamp _ => timestamp.IsValid
  | createAt _ timestamp _ now => timestamp.IsValid ∧ now.IsCommon
  | refresh | retryPending => True

/-- **All that a regular call writes can be read again.** -/
theorem safe_call_tidy {op : Operation} (h : op.IsRegular) {table : Table} {v : Timeline} :
    (op.call table).Safe Alone (Session.Tidy table) (fun _ => Session.Tidy table)
      (fun _ _ own => Session.Tidy table own) v [] := by
  have hnil : Session.Tidy table [] := Session.tidy_nil
  cases op with
  | refresh =>
    refine Call.Safe.bind hnil.safe_refresh ?_
    rintro _ w l ⟨hl, -⟩
    exact Call.safe_pure hl
  | append instant details requestedAt =>
    refine Call.Safe.bind (hnil.safe_append (fun _ => h.1) h.2) ?_
    rintro i w l ⟨-, -, hl, -⟩
    exact Call.safe_pure hl
  | transition instant target details =>
    refine Call.Safe.bind (hnil.safe_transition h.1 h.2) ?_
    rintro i w l ⟨-, hl, -⟩
    exact Call.safe_pure hl
  | run config now =>
    refine Call.Safe.bind (Compaction.safe_run_tidy h hnil) ?_
    rintro o w l ⟨hl, -⟩
    exact Call.safe_pure hl
  | retryPending =>
    refine Call.Safe.bind ((Compaction.upholds_tidy table).safe_retryPending hnil) ?_
    rintro o w l ⟨hl, -⟩
    exact Call.safe_pure hl
  | scheduleAt config timestamp now =>
    refine Call.Safe.bind ((Compaction.upholds_tidy table).safe_scheduleAt
      (Compaction.schedules_tidy fun _ _ _ => h) hnil) ?_
    rintro o w l ⟨hl, -⟩
    exact Call.safe_pure hl
  | createAt config timestamp batch now =>
    refine Call.Safe.bind (g := fun _ _ l => Session.Tidy table l) ?_ fun _ _ _ hl =>
      Call.safe_pure hl
    refine Call.Safe.bind hnil.safe_refresh ?_
    rintro _ w l ⟨hl, -⟩
    exact DeltaCommit.safe_commit_tidy h.2 hl fun _ => h.1
  | start config batch now =>
    refine Call.Safe.bind (g := fun _ _ l => Session.Tidy table l) ?_ fun _ _ _ hl =>
      Call.safe_pure hl
    refine Call.Safe.bind hnil.safe_refresh ?_
    rintro _ w l ⟨hl, hn⟩
    refine Call.safe_view (DeltaCommit.safe_commit_tidy h hl ?_)
    intro hr
    exact Session.isValid_of_refusal? hn (.inr h) rfl hr

end Operation

namespace Pool

/-- Any sessions, with any views, make any regular calls. -/
def regular (_ : Pool) (_ : Table) (op : Operation) (_ : Timeline) : Prop :=
  op.IsRegular

variable {P : Pool}

/-- What every task has written is tidy. -/
theorem Reachable.tidy_own (h : Reachable regular P) {i : Nat} {task : Task}
    (hi : P.tasks[i]? = some task) : Session.Tidy task.table (P.own i) := by
  have hc := h.conforms (fun ha => Operation.safe_call_tidy ha) hi
  split at hc
  · exact hc
  · rename_i r hr
    obtain ⟨e | r, v⟩ := r
    · exact hc
    · exact hc

/-- **All that is stored are readable markers,** each at its place. -/
theorem Reachable.exists_marker (h : Reachable regular P) {path : String} {o : Storage.Object}
    (ho : P.history.objects.find? path = some o) :
    ∃ (table : Table) (m : Marker), m.IsReadable ∧ path = table.markerAt m.timestamp ∧
      o.data = m.encode := by
  have hw := h.legal.find?_eq path
  rw [ho] at hw
  split at hw
  · cases hw
  · rename_i w ws hws
    obtain rfl := Option.some.inj hw
    have hmem : w ∈ History.writesAt path P.history.acts := by
      rw [hws]
      exact List.mem_cons_self
    obtain ⟨⟨i, e⟩, ha, -, hwrite⟩ := History.mem_writesAt.1 hmem
    have he : e ∈ P.own i := History.mem_own.2 ha
    obtain ⟨task, hi⟩ := h.exists_task he
    exact ⟨task.table, h.tidy_own hi e he path w.data hwrite⟩

/-- **Recovery:** wherever the calls of a pool stopped, what is stored of a table are the
markers of a timeline. A session that opens in calm has it for its view, and its retries
complete the outstanding compactions one at a time, the earliest first, until none is left. -/
theorem recovery (h : Reachable regular P) (table : Table) :
    ∃ t : Timeline, t.IsStoredIn table P.history.objects ∧
      ∀ o merges, Compaction.Recovers o table t ⟨P.history.objects, merges⟩ := by
  have hplaces : ∀ path o, table.IsSearched path →
      P.history.objects.find? (table.place path) = some o →
      ∃ m, Marker.decode? o.data = some m ∧ path = Table.markerPath m.timestamp.text := by
    intro path o _ ho
    obtain ⟨table', m, hm, hpath, hdata⟩ := h.exists_marker ho
    refine ⟨m, ?_, (Table.place_inj hpath).2⟩
    rw [hdata, Marker.decode?_encode, if_pos hm]
  obtain ⟨t, ht⟩ := Timeline.IsStoredIn.exists_of_places hplaces
  refine ⟨t, ht, ?_⟩
  intro o merges
  exact Timeline.IsStoredIn.recovers (s := ⟨P.history.objects, merges⟩) ht o

/-- Two sessions have each appended a compaction, and neither knew of the other. -/
theorem recovery_of_appends :
    ∃ P t, Reachable regular P ∧ t.IsStoredIn .sample P.history.objects ∧
      t.outstanding.length = 2 ∧
      ∀ o merges, Compaction.Recovers o .sample t ⟨P.history.objects, merges⟩ := by
  have hP : Reachable regular (((empty.begun .sample
      (.append (.requested ⟨"001"⟩ .compaction) (.plan .empty) none) .empty).begun .sample
      (.append (.requested ⟨"002"⟩ .compaction) (.plan .empty) none) .empty).turns [0, 1]) :=
    .turns (.start (.start .empty ⟨by decide, by decide⟩) ⟨by decide, by decide⟩) _
  obtain ⟨t, ht, hrecovers⟩ := recovery hP .sample
  refine ⟨_, t, hP, ht, ?_, hrecovers⟩
  have hopens := congrArg (fun r => r.1.map fun u => u.outstanding.length)
    (hrecovers .plain []).opens
  refine Except.ok.inj (hopens.symm.trans ?_)
  decide +kernel

end Pool
end CommitTimeline
