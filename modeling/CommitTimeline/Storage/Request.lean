/-
# Requests to storage

Storage keeps objects under paths. It lists, reads and describes them, and it
writes one under a condition on what is there: nothing, or an object of a known
version. Each request has its own kind of result.
-/

import CommitTimeline.Error
import CommitTimeline.Text.Utf8

namespace CommitTimeline
namespace Storage

/-- What must hold of a path for a write to happen. -/
inductive Precondition where
  /-- There is no object. -/
  | absent
  /-- There is an object whose version this token names. -/
  | version (token : String)
  /-- Nothing. -/
  | anything
  deriving DecidableEq, Repr

/-- What became of a write. -/
inductive Written where
  /-- The object was written and has this version now. -/
  | stored (version : String)
  /-- The condition does not hold; the object has this version. -/
  | conflict (current : String)
  deriving DecidableEq, Repr

/-- What is known of an object without its contents. -/
structure Meta where
  path : String
  size : Nat
  version : String
  deriving DecidableEq, Repr

/-- What storage can be asked for. -/
inductive Request where
  /-- The objects whose paths start with a text, in the order of their paths. -/
  | list (start : String)
  | get (path : String)
  | head (path : String)
  | put (path : String) (data : Bytes) (condition : Precondition)
  deriving DecidableEq

/-- What a request gives if it does not fail. -/
def Request.Result : Request → Type
  | .list _ => List Meta
  | .get _ => Bytes
  | .head _ => Option Meta
  | .put .. => Written

/-- The answer to a request. -/
abbrev Request.Answer (r : Request) : Type :=
  Except StorageError r.Result

/-- The path of a request, or what the paths of a listing start with. -/
def Request.path : Request → String
  | .list start => start
  | .get path => path
  | .head path => path
  | .put path .. => path

end Storage
end CommitTimeline
