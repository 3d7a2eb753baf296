/-
# What programs ask for

`Program.Asks` says of every request that a program may come to make that it is of a kind,
whatever it has been answered before. Reports count as requests here.

All that the calls of a session ask for is known (`Session.Asked`): they list and read the
objects of their table, look at markers, and write markers, each to its own place and under
a condition. Any other call asks for the same, and has the writer of the table do its work
and reports (`Operation.asks_call`).
-/

import CommitTimeline.Proofs.Pool
import CommitTimeline.Proofs.Storage.Paths

namespace CommitTimeline

variable {α β : Type} {Q Q' : Request → Prop}

namespace Program

/-- Every request that the program may make is one of which `Q` holds. -/
inductive Asks (Q : Request → Prop) : Program α → Prop where
  | done {a : α} : Asks Q (.done a)
  | ask {r : Request} {next : r.Answer → Program α} (hr : Q r) (h : ∀ x, Asks Q (next x)) :
      Asks Q (.ask r next)

/-- What is asked for is also of every wider kind. -/
theorem Asks.mono {p : Program α} (h : p.Asks Q) (hQ : ∀ r, Q r → Q' r) : p.Asks Q' := by
  induction h with
  | done => exact .done
  | ask hr _ ih => exact .ask (hQ _ hr) ih

/-- One after the other: what either one asks for is of the kind. -/
theorem Asks.bind {p : Program α} {f : α → Program β} (hp : p.Asks Q) (hf : ∀ a, (f a).Asks Q) :
    (p.bind f).Asks Q := by
  induction hp with
  | done => exact hf _
  | ask hr _ ih => exact .ask hr ih

/-- A span changes reports only. -/
theorem Asks.within {p : Program α} {span : Span} (hp : p.Asks Q)
    (hQ : ∀ e, Q (.report e) → Q (.report (e.within span))) : (p.within span).Asks Q := by
  induction hp with
  | done => exact .done
  | @ask r next hr _ ih =>
    cases r with
    | storage r => exact .ask hr ih
    | ingest timestamp batch => exact .ask hr ih
    | merge timestamp plan => exact .ask hr ih
    | report e => exact .ask (hQ e hr) ih

end Program

namespace Call

/-- Every request that the call may make, from whatever view, is one of which `Q` holds. -/
def Asks (Q : Request → Prop) (c : Call α) : Prop :=
  ∀ v, (c.program v).Asks Q

/-- What a call asks for is also of every wider kind. -/
theorem Asks.mono {c : Call α} (h : c.Asks Q) (hQ : ∀ r, Q r → Q' r) : c.Asks Q' :=
  fun v => (h v).mono hQ

/-- One call after another asks for what either one asks for. -/
theorem Asks.bind {c : Call α} {f : α → Call β} (hc : c.Asks Q) (hf : ∀ a, (f a).Asks Q) :
    (c >>= f).Asks Q := by
  intro v
  refine Program.Asks.bind (hc v) ?_
  rintro ⟨e | a, w⟩
  · exact .done
  · exact hf a w

/-- A span changes nothing that a call asks for but its reports. -/
theorem Asks.within {c : Call α} {span : Span} (hc : c.Asks Q)
    (hQ : ∀ e, Q (.report e) → Q (.report (e.within span))) : (Call.within span c).Asks Q :=
  fun v => (hc v).within hQ

/-- A result is given without asking. -/
theorem asks_pure (a : α) : (pure a : Call α).Asks Q :=
  fun _ => .done

/-- An error is thrown without asking. -/
theorem asks_throw (e : Error) : (throw e : Call α).Asks Q :=
  fun _ => .done

/-- The view is looked at without asking. -/
theorem asks_view : Call.view.Asks Q :=
  fun _ => .done

/-- The view is replaced without asking. -/
theorem asks_set (w : Timeline) : (set w : Call Unit).Asks Q :=
  fun _ => .done

/-- The view is changed without asking. -/
theorem asks_modify (f : Timeline → Timeline) : (modify f : Call Unit).Asks Q :=
  fun _ => .done

/-- A notice asks for one report. -/
theorem asks_log {n : Notice} (h : Q (.report (.log n []))) : (Call.log n).Asks Q :=
  fun _ => .ask h fun _ => .done

/-- A metric asks for one report. -/
theorem asks_count {m : Metric} (h : Q (.report (.count m))) : (Call.count m).Asks Q :=
  fun _ => .ask h fun _ => .done

/-- An ingestion asks the writer for it, once. -/
theorem asks_ingest {timestamp : Timestamp} {batch : Batch} (h : Q (.ingest timestamp batch)) :
    (Call.ingest timestamp batch).Asks Q :=
  fun _ => .ask h fun _ => .done

/-- A merge asks the writer for it, once. -/
theorem asks_merge {timestamp : Timestamp} {plan : Plan} (h : Q (.merge timestamp plan)) :
    (Call.merge timestamp plan).Asks Q :=
  fun _ => .ask h fun _ => .done

/-- What is done in storage asks for what its program asks for. -/
theorem asks_storage {p : Program (Except StorageError α)} (h : p.Asks Q) :
    (Call.storage p).Asks Q := by
  intro v
  rw [program_storage]
  exact h.bind fun _ => .done

end Call

/-- What is wrong with a path keeps storage from being asked. -/
theorem Table.asks_checked {path : String} {p : Program (Except StorageError α)} (h : p.Asks Q) :
    (Table.checked path p).Asks Q := by
  unfold Table.checked
  split
  · exact .done
  · exact h

namespace Session

/-- What sessions ask for. -/
inductive Asked (table : Table) : Request → Prop where
  | list : Asked table (.storage (.list (table.place Table.timelineDirectory)))
  | get (path : String) : Asked table (.storage (.get (table.place path)))
  | head (timestamp : Timestamp) : Asked table (.storage (.head (table.markerAt timestamp)))
  /-- A marker where there is none. -/
  | create (m : Marker) :
      Asked table (.storage (.put (table.markerAt m.timestamp) m.encode .absent))
  /-- A marker in place of the one of this version. -/
  | replace (m : Marker) (version : String) :
      Asked table (.storage (.put (table.markerAt m.timestamp) m.encode (.version version)))
  | log (n : Notice) (spans : List Span) : Asked table (.report (.log n spans))
  | conflict (action : Action) :
      Asked table (.report (.count (.transitionConflicts table.name action)))

variable {table : Table}

/-- Reading a marker asks for an object of the table. -/
theorem asks_readMarker (path : String) : (readMarker table path).Asks (Asked table) := by
  refine Call.Asks.bind
    (Call.asks_storage (Table.asks_checked (.ask (.get path) fun _ => .done))) ?_
  intro bytes
  split
  · exact Call.asks_pure _
  · exact Call.asks_throw _

/-- Reading markers asks for objects of the table. -/
theorem asks_readMarkers (paths : List String) : (readMarkers table paths).Asks (Asked table) := by
  induction paths with
  | nil => exact Call.asks_pure _
  | cons path paths ih =>
    unfold readMarkers
    split
    · exact ih
    · refine Call.Asks.bind (asks_readMarker path) ?_
      intro marker
      split
      · exact Call.Asks.bind ih fun _ => Call.asks_pure _
      · exact Call.asks_throw _

/-- A refresh lists and reads in the table. -/
theorem asks_refresh : (refresh table).Asks (Asked table) := by
  refine Call.Asks.bind (Call.asks_storage (Table.asks_checked (.ask .list fun _ => .done))) ?_
  intro listed
  refine Call.Asks.bind (asks_readMarkers _) fun markers => ?_
  exact Call.Asks.bind (Call.asks_log (.log _ _)) fun _ => Call.asks_set _

/-- An append writes one marker, to its own place and only where nothing is. -/
theorem asks_append (instant : Instant) (details : Details) (requestedAt : Option Moment) :
    (append table instant details requestedAt).Asks (Asked table) := by
  unfold append
  refine Call.Asks.bind Call.asks_view fun view => ?_
  split
  · exact Call.asks_throw _
  · have hput : Asked table (.storage (.put (table.markerAt instant.timestamp)
        (Marker.encode ⟨instant, details, requestedAt⟩) .absent)) :=
      .create ⟨instant, details, requestedAt⟩
    refine Call.Asks.bind (Call.asks_storage (Table.asks_checked (.ask hput fun _ => .done))) ?_
    rintro (version | version)
    · refine Call.Asks.bind (Call.asks_log (.log _ _)) fun _ => ?_
      exact Call.Asks.bind (Call.asks_modify _) fun _ => Call.asks_pure _
    · exact Call.asks_throw _

/-- A transition looks at one marker, reads it and overwrites it under a condition. -/
theorem asks_transition (instant : Instant) (target : State) (details : Option Details) :
    (transition table instant target details).Asks (Asked table) := by
  unfold transition
  split
  · have hhead : Asked table (.storage (.head (table.markerAt instant.timestamp))) := .head _
    refine Call.Asks.bind (Call.asks_storage (Table.asks_checked (.ask hhead fun _ => .done))) ?_
    rintro (_ | known)
    · exact Call.asks_throw _
    refine Call.Asks.bind (asks_readMarker _) fun current => ?_
    split
    · have hput : Asked table (.storage (.put (table.markerAt instant.timestamp)
          (Marker.encode ⟨instant.moved target, details.getD current.details,
            current.requestedAt⟩) (.version known.version))) :=
        .replace ⟨instant.moved target, details.getD current.details, current.requestedAt⟩ _
      refine Call.Asks.bind (Call.asks_storage (Table.asks_checked (.ask hput fun _ => .done))) ?_
      rintro (version | version)
      · refine Call.Asks.bind (Call.asks_log (.log _ _)) fun _ => ?_
        exact Call.Asks.bind (Call.asks_modify _) fun _ => Call.asks_pure _
      · refine Call.Asks.bind (Call.asks_count (.conflict _)) fun _ => ?_
        refine Call.Asks.bind (asks_readMarker _) fun actual => ?_
        exact Call.Asks.bind (Call.asks_log (.log _ _)) fun _ => Call.asks_throw _
    · exact Call.Asks.bind (Call.asks_count (.conflict _)) fun _ => Call.asks_throw _
  · exact Call.asks_throw _

end Session

namespace Operation

/-- What calls ask for. -/
inductive Asked (table : Table) : Request → Prop where
  | session {r : Request} (h : Session.Asked table r) : Asked table r
  | ingest (timestamp : Timestamp) (batch : Batch) : Asked table (.ingest timestamp batch)
  | merge (timestamp : Timestamp) (plan : Plan) : Asked table (.merge timestamp plan)
  | report (e : Event) : Asked table (.report e)

end Operation

namespace Compaction

open Operation (Asked)

variable {table : Table}

/-- Scheduling a compaction appends it and reports. -/
theorem asks_schedule (t : Timeline) (timestamp : Timestamp) (reason : Reason) (now : Moment) :
    (schedule table t timestamp reason now).Asks (Asked table) := by
  refine Call.Asks.bind ((Session.asks_append _ _ _).mono fun _ => .session) fun requested => ?_
  refine Call.Asks.bind (Call.asks_log (.report _)) fun _ => ?_
  exact Call.Asks.bind (Call.asks_count (.report _)) fun _ => Call.asks_pure _

/-- Starting a compaction is at most one transition. -/
theorem asks_start (compaction : Instant) : (start table compaction).Asks (Asked table) := by
  unfold start
  split
  · exact (Session.asks_transition _ _ _).mono fun _ => .session
  · exact Call.asks_pure _

/-- An execution takes transitions, a merge and reports. -/
theorem asks_execute (compaction : Instant) (mode : Mode) :
    (execute table compaction mode).Asks (Asked table) := by
  refine Call.Asks.within ?_ fun _ _ => .report _
  refine Call.Asks.bind (asks_start compaction) fun inflight => ?_
  refine Call.Asks.bind Call.asks_view fun view => ?_
  refine Call.Asks.bind (Call.asks_merge (.merge _ _)) ?_
  rintro (e | _)
  · refine Call.Asks.bind (Call.asks_count (.report _)) fun _ => ?_
    exact Call.Asks.bind (Call.asks_log (.report _)) fun _ => Call.asks_throw _
  · refine Call.Asks.bind ((Session.asks_transition _ _ _).mono fun _ => .session) fun _ => ?_
    refine Call.Asks.bind (Call.asks_count (.report _)) fun _ => ?_
    refine Call.Asks.bind (Call.asks_count (.report _)) fun _ => ?_
    exact Call.Asks.bind (Call.asks_log (.report _)) fun _ => Call.asks_pure _

/-- Adopting a compaction takes what executing it takes, and reports. -/
theorem asks_completePending : (completePending table).Asks (Asked table) := by
  refine Call.Asks.bind Call.asks_view fun view => ?_
  split
  · exact Call.asks_pure _
  · refine Call.Asks.bind (Call.asks_log (.report _)) fun _ => ?_
    refine Call.Asks.bind (Call.asks_count (.report _)) fun _ => ?_
    exact Call.Asks.bind (asks_execute _ _) fun _ => Call.asks_pure _

/-- A cycle asks for what its refresh, its retry and its schedule ask for. -/
theorem asks_run (config : Config) (now : Moment) :
    (run table config now).Asks (Asked table) := by
  refine Call.Asks.within ?_ fun _ _ => .report _
  refine Call.Asks.bind (Session.asks_refresh.mono fun _ => .session) fun _ => ?_
  refine Call.Asks.bind asks_completePending ?_
  rintro (_ | completed)
  swap
  · exact Call.asks_pure _
  refine Call.Asks.bind Call.asks_view fun timeline => ?_
  split
  · exact Call.Asks.bind (Call.asks_log (.report _)) fun _ => Call.asks_pure _
  · refine Call.Asks.bind (asks_schedule _ _ _ _) fun requested => ?_
    split
    · exact Call.Asks.bind (asks_execute _ _) fun _ => Call.asks_pure _
    · exact Call.asks_pure _

/-- A retry asks for what a refresh and an execution ask for. -/
theorem asks_retryPending : (retryPending table).Asks (Asked table) :=
  Call.Asks.bind (Session.asks_refresh.mono fun _ => .session) fun _ => asks_completePending

/-- Scheduling at a timestamp asks for what a refresh and an append ask for. -/
theorem asks_scheduleAt (config : Config) (timestamp : Timestamp) (now : Moment) :
    (scheduleAt table config timestamp now).Asks (Asked table) := by
  refine Call.Asks.bind (Session.asks_refresh.mono fun _ => .session) fun _ => ?_
  refine Call.Asks.bind Call.asks_view fun timeline => ?_
  split
  · exact Call.asks_throw _
  split
  · exact Call.asks_pure _
  · exact Call.Asks.bind (asks_schedule _ _ _ _) fun _ => Call.asks_pure _

end Compaction

namespace DeltaCommit

open Operation (Asked)

variable {table : Table}

/-- Writing a delta commit takes an append, two transitions, an ingestion and reports. -/
theorem asks_writeDelta (timestamp : Timestamp) (batch : Batch) (now : Moment) :
    (writeDelta table timestamp batch now).Asks (Asked table) := by
  refine Call.Asks.bind ((Session.asks_append _ _ _).mono fun _ => .session) fun requested => ?_
  refine Call.Asks.bind ((Session.asks_transition _ _ _).mono fun _ => .session) fun inflight => ?_
  refine Call.Asks.bind (Call.asks_ingest (.ingest _ _)) ?_
  rintro (e | metadata)
  · refine Call.Asks.bind (Call.asks_count (.report _)) fun _ => ?_
    exact Call.Asks.bind (Call.asks_log (.report _)) fun _ => Call.asks_throw _
  · refine Call.Asks.bind ((Session.asks_transition _ _ _).mono fun _ => .session) fun _ => ?_
    refine Call.Asks.bind (Call.asks_count (.report _)) fun _ => ?_
    exact Call.Asks.bind (Call.asks_log (.report _)) fun _ => Call.asks_pure _

/-- A delta commit asks for what writing it and the cycle after it ask for. -/
theorem asks_commit (config : Config) (timestamp : Timestamp) (batch : Batch) (now : Moment) :
    (commit table config timestamp batch now).Asks (Asked table) := by
  refine Call.Asks.bind ((asks_writeDelta _ _ _).within fun _ _ => .report _) ?_
  rintro ⟨instant, metadata⟩
  dsimp only
  split
  · exact Call.Asks.bind (Compaction.asks_run _ _) fun _ => Call.asks_pure _
  · exact Call.Asks.bind (Call.asks_pure _) fun _ => Call.asks_pure _

end DeltaCommit

/-- **All that a call asks for,** from whatever view and whatever it is answered. -/
theorem Operation.asks_call (op : Operation) (table : Table) :
    (op.call table).Asks (Asked table) := by
  have hrefresh : (Session.refresh table).Asks (Asked table) :=
    Session.asks_refresh.mono fun _ => .session
  cases op with
  | refresh => exact Call.Asks.bind hrefresh fun _ => Call.asks_pure _
  | append instant details requestedAt =>
    exact Call.Asks.bind ((Session.asks_append _ _ _).mono fun _ => .session) fun _ =>
      Call.asks_pure _
  | transition instant target details =>
    exact Call.Asks.bind ((Session.asks_transition _ _ _).mono fun _ => .session) fun _ =>
      Call.asks_pure _
  | run config now => exact Call.Asks.bind (Compaction.asks_run _ _) fun _ => Call.asks_pure _
  | retryPending => exact Call.Asks.bind Compaction.asks_retryPending fun _ => Call.asks_pure _
  | scheduleAt config timestamp now =>
    exact Call.Asks.bind (Compaction.asks_scheduleAt _ _ _) fun _ => Call.asks_pure _
  | createAt config timestamp batch now =>
    refine Call.Asks.bind (Call.Asks.bind hrefresh fun _ => ?_) fun _ => Call.asks_pure _
    exact DeltaCommit.asks_commit _ _ _ _
  | start config batch now =>
    refine Call.Asks.bind (Call.Asks.bind hrefresh fun _ => ?_) fun _ => Call.asks_pure _
    exact Call.Asks.bind Call.asks_view fun _ => DeltaCommit.asks_commit _ _ _ _

end CommitTimeline
