/-
# Storage with planned failures

`Traced` is storage in memory that records every operation and fails on demand:
every operation on some paths, every put on some paths, or a number of puts on
some paths. Paths are chosen by what they start with. It looks objects up and
writes them in its own way: a token that is no number counts as -1, which is the
version of no object.
-/

import CommitTimeline.Storage.Objects

namespace CommitTimeline
namespace Simulation

/-- A recorded operation. -/
inductive Operation where
  | list (start : String)
  | get (path : String)
  | head (path : String)
  | put (path : String) (size : Nat) (condition : Storage.Precondition)
  deriving DecidableEq

/-- The record of a request. -/
def Operation.ofRequest : Storage.Request → Operation
  | .list start => .list start
  | .get path => .get path
  | .head path => .head path
  | .put path data condition => .put path data.length condition

/-- The operation is a put. -/
def Operation.isPut : Operation → Bool
  | .put .. => true
  | _ => false

/-- Puts that are to fail: those on paths with this start, all of them or as many as
are left. -/
structure FailingPuts where
  start : String
  left : Option Nat
  deriving DecidableEq

/-- Storage in memory that records and fails. -/
structure Traced where
  objects : Storage.Objects
  operations : List Operation
  failing : List String
  failingPuts : List FailingPuts

namespace Traced

/-- No objects, no records and no planned failures. -/
def empty : Traced := ⟨.empty, [], [], []⟩

/-- A path starts with a text. -/
def startsWith (path start : String) : Bool :=
  start.toList.isPrefixOf path.toList

/-- Spends one of the planned failures of puts on a path: the first plan that covers
it loses one, and goes when it has none left. `none` if no plan covers it. -/
def spend? (path : String) : List FailingPuts → Option (List FailingPuts)
  | [] => none
  | f :: fs =>
    if startsWith path f.start then
      match f.left with
      | none => some (f :: fs)
      | some n => if n - 1 = 0 then some fs else some ({ f with left := some (n - 1) } :: fs)
    else (spend? path fs).map (f :: ·)

/-- The contents of the object at a path. -/
def read (s : Traced) (path : String) : Except StorageError Bytes :=
  match s.objects.find? path with
  | some o => .ok o.data
  | none => .error (.missing path)

/-- What is known of the object at a path. -/
def describe? (s : Traced) (path : String) : Option Storage.Meta :=
  (s.objects.find? path).map fun o => ⟨path, o.data.length, o.token⟩

/-- What is known of the objects whose paths start with a text. -/
def listed (s : Traced) (start : String) : List Storage.Meta :=
  s.objects.entries.filterMap fun (path, o) =>
    if startsWith path start then some ⟨path, o.data.length, o.token⟩ else none

/-- The version that a refused write is told, if a condition keeps it from happening. -/
def refusal? (existing : Option Storage.Object) : Storage.Precondition → Option String
  | .anything => none
  | .absent => existing.map (·.token)
  | .version token =>
    let expected := (Text.integer? token.toList).getD (-1)
    match existing with
    | none => some "0"
    | some o => if (o.version : Int) = expected then none else some o.token

/-- Writes an object, unless the condition keeps it from happening. -/
def write (s : Traced) (path : String) (data : Bytes) (condition : Storage.Precondition) :
    Storage.Written × Traced :=
  let existing := s.objects.find? path
  match refusal? existing condition with
  | some current => (.conflict current, s)
  | none =>
    let o : Storage.Object := ⟨data, existing.elim 1 (·.version + 1)⟩
    (.stored o.token, { s with objects := s.objects.insert path o })

/-- Does what a request asks for, unless it is to fail. An operation that fails
altogether is not recorded; a put that fails as a put is. -/
def answer (s : Traced) (r : Storage.Request) : r.Answer × Traced :=
  if s.failing.any (startsWith r.path) then (.error (.plannedFailure r.path), s)
  else
    let s := { s with operations := s.operations ++ [Operation.ofRequest r] }
    match r with
    | .get path => (s.read path, s)
    | .head path => (.ok (s.describe? path), s)
    | .list start => (.ok (s.listed start), s)
    | .put path data condition =>
      match spend? path s.failingPuts with
      | some left => (.error (.plannedPutFailure path), { s with failingPuts := left })
      | none =>
        let (written, s) := s.write path data condition
        (.ok written, s)

/-- From now on every operation on paths with this start fails. -/
def failPaths (s : Traced) (start : String) : Traced :=
  { s with failing := s.failing ++ [start] }

/-- From now on every put on paths with this start fails. -/
def failPuts (s : Traced) (start : String) : Traced :=
  { s with failingPuts := s.failingPuts ++ [⟨start, none⟩] }

/-- The next puts on paths with this start fail. -/
def failNextPuts (s : Traced) (start : String) (count : Nat) : Traced :=
  if count = 0 then s else { s with failingPuts := s.failingPuts ++ [⟨start, some count⟩] }

/-- Nothing is to fail any more. -/
def clearFailures (s : Traced) : Traced :=
  { s with failing := [], failingPuts := [] }

/-- Forgets the recorded operations. -/
def clearOperations (s : Traced) : Traced :=
  { s with operations := [] }

/-- The recorded puts. -/
def puts (s : Traced) : List Operation :=
  s.operations.filter Operation.isPut

/-- The paths that hold an object, in order. -/
def paths (s : Traced) : List String :=
  s.objects.entries.map (·.1)

end Traced
end Simulation
end CommitTimeline
