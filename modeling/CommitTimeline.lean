import CommitTimeline.Batch
import CommitTimeline.Call
import CommitTimeline.Compaction
import CommitTimeline.Config
import CommitTimeline.Config.Codec
import CommitTimeline.Config.Environment
import CommitTimeline.DeltaCommit
import CommitTimeline.Error
import CommitTimeline.Event
import CommitTimeline.Instant
import CommitTimeline.Instant.Filter
import CommitTimeline.Json.Basic
import CommitTimeline.Json.Double
import CommitTimeline.Json.Number
import CommitTimeline.Json.Printer
import CommitTimeline.Json.Reader
import CommitTimeline.Json.Record
import CommitTimeline.Marker
import CommitTimeline.Marker.Codec
import CommitTimeline.Policy
import CommitTimeline.Program
import CommitTimeline.Proofs.Json.RoundTrip
import CommitTimeline.Proofs.Marker.RoundTrip
import CommitTimeline.Proofs.Program.Safety
import CommitTimeline.Proofs.Storage.Paths
import CommitTimeline.Proofs.Time.RoundTrip
import CommitTimeline.Session
import CommitTimeline.Simulation.Check
import CommitTimeline.Simulation.Clock
import CommitTimeline.Simulation.Fixture
import CommitTimeline.Simulation.RecordingWriter
import CommitTimeline.Simulation.Traced
import CommitTimeline.Simulation.World
import CommitTimeline.Storage.Objects
import CommitTimeline.Storage.Request
import CommitTimeline.Storage.Table
import CommitTimeline.Text.Blank
import CommitTimeline.Text.Extending
import CommitTimeline.Text.Numeral
import CommitTimeline.Text.Quoted
import CommitTimeline.Text.Ranges
import CommitTimeline.Text.Unassigned
import CommitTimeline.Text.Utf8
import CommitTimeline.Time.Calendar
import CommitTimeline.Time.Duration
import CommitTimeline.Time.Moment
import CommitTimeline.Time.Rfc3339
import CommitTimeline.Timeline
import CommitTimeline.Timeline.Cursor
import CommitTimeline.Timestamp
import CommitTimeline.Proofs.History
import CommitTimeline.Proofs.Session.Exchanges
import CommitTimeline.Proofs.Pool
import CommitTimeline.Proofs.Session.Stages
import CommitTimeline.Proofs.Session.Lifecycle
import CommitTimeline.Proofs.Compaction.Exchanges
import CommitTimeline.Proofs.Compaction.Agreement
import CommitTimeline.Proofs.Serial
import CommitTimeline.Proofs.Session.Serial
import CommitTimeline.Proofs.Compaction.Serial
import CommitTimeline.Proofs.Batch
import CommitTimeline.Proofs.Compaction.Order
import CommitTimeline.Proofs.Compaction.Partition
import CommitTimeline.Proofs.Timestamp
import CommitTimeline.Proofs.Program.Calm
import CommitTimeline.Proofs.Session.Reload
import CommitTimeline.Proofs.Compaction.Retry
import CommitTimeline.Proofs.Compaction.Upkeep
import CommitTimeline.Proofs.Compaction.Recovery
import CommitTimeline.Proofs.Pool.Turns
import CommitTimeline.Proofs.DeltaCommit.Reload
import CommitTimeline.Proofs.Pool.Writes
import CommitTimeline.Proofs.Compaction.Overlap
import CommitTimeline.Proofs.Compaction.Late
import CommitTimeline.Proofs.Program.Leads
import CommitTimeline.Proofs.Session.Solitary
import CommitTimeline.Proofs.Compaction.Cycle
import CommitTimeline.Proofs.Session.Coherence
import CommitTimeline.Proofs.Marker.Codec
import CommitTimeline.Proofs.DeltaCommit.Cadence
import CommitTimeline.Proofs.Compaction.Deferral
import CommitTimeline.Proofs.Session.Views
import CommitTimeline.Proofs.Program.Requests
import CommitTimeline.Proofs.Storage.Isolation
import CommitTimeline.Proofs.Program.Accounts
import CommitTimeline.Proofs.DeltaCommit.Metrics
import CommitTimeline.Proofs.Timestamp.Stamp
import CommitTimeline.Proofs.Session.Clock
import CommitTimeline.Proofs.Policy
import CommitTimeline.Proofs.Simulation.Traced
import CommitTimeline.Proofs.Storage.Versions
import CommitTimeline.Proofs.Session.Layout
import CommitTimeline.Proofs.Policy.Lasting
import CommitTimeline.Proofs.Program.Records
import CommitTimeline.Proofs.DeltaCommit.Deeds
import CommitTimeline.Proofs.DeltaCommit.Stages
import CommitTimeline.Proofs.Config.Codec
import CommitTimeline.Proofs.Text.Reading
import CommitTimeline.Proofs.Config.Environment
import CommitTimeline.Proofs.Session.Cursors
import CommitTimeline.Proofs.Program.Preserves
import CommitTimeline.Proofs.Policy.Requested
import CommitTimeline.Proofs.Time.Elapsed
import CommitTimeline.Proofs.Simulation.Clock
import CommitTimeline.Proofs.Simulation.Budget
import CommitTimeline.Proofs.Timeline.Contents
import CommitTimeline.Proofs.Timestamp.Successor
