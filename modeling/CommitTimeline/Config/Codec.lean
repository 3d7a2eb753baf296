/-
# Configuration as JSON

An object with the members `inlineCompaction`, `maxNumDeltaCommitsBeforeCompaction` and
`maxDeltaSecondsBeforeCompaction`: the time is given in whole seconds, and the first
member may be left out.
-/

import CommitTimeline.Config
import CommitTimeline.Json.Printer
import CommitTimeline.Json.Reader
import CommitTimeline.Json.Record

namespace CommitTimeline
namespace Config

/-- A configuration as JSON. -/
def toJson (c : Config) : Json :=
  .object [("inlineCompaction", .bool c.isInline),
    ("maxNumDeltaCommitsBeforeCompaction", .nat c.maxDeltaCommits.toNat),
    ("maxDeltaSecondsBeforeCompaction", .nat c.maxDeltaTime.seconds)]

/-- A configuration from JSON. -/
def ofJson? (j : Json) : Option Config := do
  let fields ← j.record? ["inlineCompaction", "maxNumDeltaCommitsBeforeCompaction",
    "maxDeltaSecondsBeforeCompaction"]
  let isInline ← match fields.lookup "inlineCompaction" with
    | some j => j.bool?
    | none => some false
  let maxDeltaCommits ← fields.lookup "maxNumDeltaCommitsBeforeCompaction" >>= Json.uint32?
  let seconds ← fields.lookup "maxDeltaSecondsBeforeCompaction" >>= Json.uint64?
  return ⟨isInline, maxDeltaCommits, .ofSeconds seconds⟩

/-- The configuration that bytes of JSON spell. -/
def decode? (bs : Bytes) : Option Config :=
  Json.ofBytes? bs >>= ofJson?

end Config
end CommitTimeline
