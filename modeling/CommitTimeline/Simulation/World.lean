/-
# A world to run programs in

A `World` has one storage, in memory or traced, one scripted writer, and rivals: a
rival is a write that comes between, right before a conditional put on its path,
and a rival that fails takes the put with it. The world counts metrics and keeps
log records. `World.answer` answers any request, so `Program.run World.answer` runs
any call.
-/

import CommitTimeline.Call
import CommitTimeline.Simulation.RecordingWriter
import CommitTimeline.Simulation.Traced

namespace CommitTimeline
namespace Simulation

/-- Storage in memory, plain or traced. -/
inductive Backend where
  | plain (objects : Storage.Objects)
  | traced (s : Traced)

namespace Backend

/-- Does what a request asks for. -/
def answer (b : Backend) (r : Storage.Request) : r.Answer × Backend :=
  match b with
  | plain objects =>
    let (x, objects) := objects.answer r
    (x, plain objects)
  | traced s =>
    let (x, s) := s.answer r
    (x, traced s)

end Backend

/-- A write that comes between: it lets some conditional puts on its path pass and
is carried out right before the next one. -/
structure Rival where
  path : String
  data : Bytes
  skip : Nat
  deriving DecidableEq

/-- What programs run in. -/
structure World where
  backend : Backend
  writer : ScriptedWriter
  rivals : List Rival
  counters : List (Metric × Nat)
  records : List (Notice × List Span)

namespace World

/-- A world in which nothing has happened. -/
def start (backend : Backend) : World :=
  ⟨backend, .fresh, [], [], []⟩

/-- Finds the oldest rival of a path. It loses one put to let pass; if it has none
left, it is due and goes. -/
def meet (path : String) : List Rival → Option Rival × List Rival
  | [] => (none, [])
  | r :: rs =>
    if r.path = path then
      match r.skip with
      | 0 => (some r, rs)
      | n + 1 => (none, { r with skip := n } :: rs)
    else (meet path rs).map id (r :: ·)

/-- Does what a request to storage asks for, without rivals. -/
def direct (w : World) (r : Storage.Request) : r.Answer × World :=
  let (x, backend) := w.backend.answer r
  (x, { w with backend })

/-- Puts under a condition, after the rival that comes between. If the write of the
rival fails, so does the put, and nothing more is tried. -/
def contend (w : World) (path : String) (data : Bytes) (condition : Storage.Precondition) :
    Except StorageError Storage.Written × World :=
  let (rival, rivals) := meet path w.rivals
  let w := { w with rivals }
  match rival with
  | none => w.direct (.put path data condition)
  | some r =>
    match w.direct (.put r.path r.data .anything) with
    | (.error e, w) => (.error e, w)
    | (.ok _, w) => w.direct (.put path data condition)

/-- Does what a request to storage asks for; only a put under a condition has rivals. -/
def storage (w : World) : (r : Storage.Request) → r.Answer × World
  | .put path data condition =>
    if condition = .anything then w.direct (.put path data condition)
    else w.contend path data condition
  | r => w.direct r

/-- Adds one to the number of a metric. -/
def raise (m : Metric) : List (Metric × Nat) → List (Metric × Nat)
  | [] => [(m, 1)]
  | (k, n) :: rest => if k = m then (k, n + 1) :: rest else (k, n) :: raise m rest

/-- Takes note of an event. -/
def report (w : World) : Event → World
  | .log notice spans => { w with records := w.records ++ [(notice, spans)] }
  | .count metric => { w with counters := raise metric w.counters }

/-- Answers a request. -/
def answer (r : Request) (w : World) : r.Answer × World :=
  match r with
  | .storage r => w.storage r
  | .ingest timestamp batch =>
    let (x, writer) := w.writer.ingest timestamp batch
    (x, { w with writer })
  | .merge timestamp plan =>
    let (x, writer) := w.writer.merge timestamp plan
    (x, { w with writer })
  | .report e => ((), w.report e)

/-- Runs a program. -/
def run {α : Type} (w : World) (p : Program α) : α × World :=
  p.run answer w

end World
end Simulation
end CommitTimeline
