/-
# Stored markers

A marker is stored as a JSON object:
`{"timestamp":"001","action":"compaction","state":"requested","details":{...}}`,
with `requested_at` at the end if it is known. The details say by `kind` which
ones they are. `Marker.encode` writes these bytes and `Marker.decode?` reads
them; it takes the fields in any order, or as an array, and skips unknown ones.
-/

import CommitTimeline.Json.Printer
import CommitTimeline.Json.Reader
import CommitTimeline.Json.Record
import CommitTimeline.Marker

namespace CommitTimeline

namespace Timestamp

/-- A timestamp as JSON. -/
def toJson (t : Timestamp) : Json :=
  .text t.text

/-- A timestamp that a caller may name, from JSON. -/
def ofJson? (j : Json) : Option Timestamp :=
  j.string?.bind fun s => (ofString s).toOption

end Timestamp

namespace Action

/-- An action as JSON. -/
def toJson (a : Action) : Json :=
  .text a.name

/-- An action from JSON. -/
def ofJson? (j : Json) : Option Action :=
  j.case?.bind ofName?

end Action

namespace State

/-- A state as JSON. -/
def toJson (s : State) : Json :=
  .text s.label

/-- A state from JSON. -/
def ofJson? (j : Json) : Option State :=
  j.case?.bind ofLabel?

end State

namespace Instant

/-- An instant as JSON. -/
def toJson (i : Instant) : Json :=
  .object [("timestamp", i.timestamp.toJson), ("action", i.action.toJson),
    ("state", i.state.toJson)]

/-- An instant from JSON. -/
def ofJson? (j : Json) : Option Instant := do
  let fields ← j.record? ["timestamp", "action", "state"]
  let timestamp ← fields.lookup "timestamp" >>= Timestamp.ofJson?
  let action ← fields.lookup "action" >>= Action.ofJson?
  let state ← fields.lookup "state" >>= State.ofJson?
  return ⟨timestamp, action, state⟩

end Instant

namespace CommitMetadata

/-- The fields of metadata. -/
def fields (m : CommitMetadata) : List (String × Json) :=
  [("file_groups", .array (m.fileGroups.map .text)),
    ("records_written", .nat m.recordsWritten.toNat)]

/-- Metadata as JSON. -/
def toJson (m : CommitMetadata) : Json :=
  .object m.fields

/-- Metadata from JSON. -/
def ofJson? (j : Json) : Option CommitMetadata := do
  let fields ← j.record? ["file_groups", "records_written"]
  let fileGroups ← fields.lookup "file_groups" >>= Json.list? Json.string?
  let recordsWritten ← fields.lookup "records_written" >>= Json.uint64?
  return ⟨fileGroups, recordsWritten⟩

end CommitMetadata

namespace Plan

/-- The fields of a plan. -/
def fields (p : Plan) : List (String × Json) :=
  [("delta_commits", .array (p.deltaCommits.map Timestamp.toJson)),
    ("file_groups", .array (p.fileGroups.map .text))]

/-- A plan as JSON. -/
def toJson (p : Plan) : Json :=
  .object p.fields

/-- A plan from JSON. -/
def ofJson? (j : Json) : Option Plan := do
  let fields ← j.record? ["delta_commits", "file_groups"]
  let deltaCommits ← fields.lookup "delta_commits" >>= Json.list? Timestamp.ofJson?
  let fileGroups ← fields.lookup "file_groups" >>= Json.list? Json.string?
  return ⟨deltaCommits, fileGroups⟩

end Plan

namespace Details

/-- Details as JSON, the kind first. -/
def toJson : Details → Json
  | .empty => .object [("kind", .text "empty")]
  | .plan p => .object (("kind", .text "compaction_plan") :: p.fields)
  | .metadata m => .object (("kind", .text "commit_metadata") :: m.fields)

/-- The kind of tagged details, with the rest of them: the kind is the one member
of that name, or the first item. -/
def tagged? : Json → Option (String × Json)
  | .object members =>
    match members.filter fun m => m.1 = "kind" with
    | [(_, .text kind)] => some (kind, .object (members.filter fun m => m.1 ≠ "kind"))
    | _ => none
  | .array (.text kind :: items) => some (kind, .array items)
  | _ => none

/-- Details from JSON that lies in `around` arrays and objects. -/
def ofJson? (around : Nat) (j : Json) : Option Details :=
  if j.isKept around then do
    let (kind, rest) ← tagged? j
    if kind = "empty" then
      match rest with
      | .object _ | .array [] => some .empty
      | _ => none
    else if kind = "compaction_plan" then (Plan.ofJson? rest).map .plan
    else if kind = "commit_metadata" then (CommitMetadata.ofJson? rest).map .metadata
    else none
  else none

end Details

namespace Moment

/-- A moment as JSON. -/
def toJson (m : Moment) : Json :=
  .text (String.ofList (Rfc3339.write m))

/-- A moment from JSON. -/
def ofJson? (j : Json) : Option Moment :=
  j.string?.bind fun s => Rfc3339.read? s.toList

end Moment

namespace Marker

/-- A marker as JSON. -/
def toJson (m : Marker) : Json :=
  .object <|
    [("timestamp", m.instant.timestamp.toJson), ("action", m.instant.action.toJson),
      ("state", m.instant.state.toJson), ("details", m.details.toJson)] ++
    (match m.requestedAt with
      | some moment => [("requested_at", moment.toJson)]
      | none => [])

/-- A value that may be null or absent. -/
def optional? {α : Type} (read? : Json → Option α) : Option Json → Option (Option α)
  | none | some .null => some none
  | some j => (read? j).map some

/-- A marker from JSON; without details it has empty ones. -/
def ofJson? (j : Json) : Option Marker := do
  let fields ← j.record? ["timestamp", "action", "state", "details", "requested_at"]
  let timestamp ← fields.lookup "timestamp" >>= Timestamp.ofJson?
  let action ← fields.lookup "action" >>= Action.ofJson?
  let state ← fields.lookup "state" >>= State.ofJson?
  let details ← match fields.lookup "details" with
    | some j => Details.ofJson? 1 j
    | none => some .empty
  let requestedAt ← optional? Moment.ofJson? (fields.lookup "requested_at")
  return ⟨⟨timestamp, action, state⟩, details, requestedAt⟩

/-- The stored bytes of a marker. -/
def encode (m : Marker) : Bytes :=
  Text.encode m.toJson.chars

/-- The marker that stored bytes spell. -/
def decode? (bs : Bytes) : Option Marker :=
  Json.ofBytes? bs >>= ofJson?

end Marker
end CommitTimeline
