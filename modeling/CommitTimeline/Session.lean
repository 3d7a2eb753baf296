/-
# Sessions

What a session does to the timeline of its table. `refresh` loads every marker,
`append` creates the marker of a new instant, and `transition` moves an instant by
one state. A write is conditional: a marker is created only where there is none,
and replaced only if it is still the one that was read. So a view that has fallen
behind leads to a refused write, never to a lost one.
-/

import CommitTimeline.Call
import CommitTimeline.Marker.Codec

namespace CommitTimeline
namespace Session

/-- The marker at a path of a table. -/
def readMarker (table : Table) (path : String) : Call Marker := do
  let bytes ← Call.storage (table.get path)
  match Marker.decode? bytes with
  | some marker => return marker
  | none => throw (.serialization s!"failed to decode instant marker {path}")

/-- The markers at the listed paths; what is not named like a marker is passed over.
A marker that is not named by its own timestamp is an error. -/
def readMarkers (table : Table) : List String → Call (List Entry)
  | [] => return []
  | path :: paths =>
    match Table.stem? (Table.fileName path.toList) with
    | none => readMarkers table paths
    | some stem => do
      let marker ← readMarker table path
      if marker.timestamp.text.toList = stem then
        let markers ← readMarkers table paths
        return marker :: markers
      else
        throw (.serialization s!"marker '{path}' records timestamp {marker.timestamp.text}")

/-- Replaces the view by the stored markers. -/
def refresh (table : Table) : Call Unit := do
  let listed ← Call.storage (table.list Table.timelineDirectory)
  let markers ← readMarkers table (listed.map (·.1))
  let timeline := Timeline.ofEntries markers
  Call.log (.refreshed table.name timeline.length)
  set timeline

/-- What keeps an instant from being appended to a timeline. -/
def refusal? (view : Timeline) (instant : Instant) : Option Error :=
  if instant.state ≠ .requested then
    some (.invalidTransition instant.timestamp instant.action "append as requested"
      instant.state.label)
  else match view.last? .all with
    | some last =>
      if instant.timestamp ≤ last.timestamp then some (.outOfOrder instant.timestamp last.timestamp)
      else if instant.action = .compaction then
        view.pendingCompaction?.map fun pending =>
          .compactionPending pending.timestamp pending.state
      else none
    | none => none

/-- Appends a requested instant with its details and the time of the request. -/
def append (table : Table) (instant : Instant) (details : Details) (requestedAt : Option Moment) :
    Call Instant := do
  let view ← Call.view
  match refusal? view instant with
  | some e => throw e
  | none =>
    let marker : Marker := ⟨instant, details, requestedAt⟩
    let written ← Call.storage
      (table.put (Table.markerPath instant.timestamp.text) marker.encode .absent)
    match written with
    | .stored _ =>
      Call.log (.appended table.name instant)
      modify (·.upsert marker)
      return instant
    | .conflict _ => throw (.outOfOrder instant.timestamp instant.timestamp)

/-- A step of an instant, as messages name it. -/
def stepText (instant : Instant) (target : State) : String :=
  s!"{instant.state.label} -> {target.label}"

/-- The stored instant is not the one that was to be moved. -/
def mismatch (instant : Instant) (target : State) (actual : Marker) : Error :=
  .invalidTransition instant.timestamp instant.action (stepText instant target)
    s!"{actual.instant.action.label} {actual.instant.state.label}"

/-- Moves an instant to its next state. The details stay unless new ones are given;
the time of the request stays. -/
def transition (table : Table) (instant : Instant) (target : State) (details : Option Details) :
    Call Instant := do
  if instant.state.Leads target then
    let path := Table.markerPath instant.timestamp.text
    match ← Call.storage (table.head path) with
    | none => throw (.instantNotFound instant.timestamp)
    | some known =>
      let current ← readMarker table path
      if current.instant.action = instant.action ∧ current.instant.state = instant.state then
        let moved := instant.moved target
        let marker : Marker := ⟨moved, details.getD current.details, current.requestedAt⟩
        let written ← Call.storage (table.put path marker.encode (.version known.version))
        match written with
        | .stored _ =>
          Call.log (.transitioned table.name instant moved)
          modify (·.upsert marker)
          return moved
        | .conflict _ =>
          Call.count (.transitionConflicts table.name instant.action)
          let actual ← readMarker table path
          Call.log (.raceLost table.name instant actual.instant)
          throw (mismatch instant target actual)
      else
        Call.count (.transitionConflicts table.name instant.action)
        throw (mismatch instant target current)
  else
    throw (.invalidTransition instant.timestamp instant.action (stepText instant target)
      s!"no transition from {instant.state.label}")

/-- Opens a session: the first view is what is stored. -/
def load (table : Table) : Program (Except Error Timeline) := do
  let (outcome, view) ← (refresh table).program .empty
  return outcome.map fun _ => view

end Session
end CommitTimeline
