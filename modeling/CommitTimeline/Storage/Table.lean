/-
# Tables in storage

The objects of a table lie under `tables/{name}/`, its markers under `.timeline/`
therein, one `{timestamp}.json` for each instant. A table name has only small
letters, digits, `-` and `_`; a path inside a table may not lead out of it. The
operations on a table check the path and then ask storage once.
-/

import CommitTimeline.Program
import CommitTimeline.Text.Blank

namespace CommitTimeline

/-- A character of a table name. -/
def isNameChar (c : Char) : Bool :=
  c.isLower || c.isDigit || c == '-' || c == '_'

/-- A table, by its name. -/
structure Table where
  name : String
  name_ne : name ≠ ""
  name_chars : name.toList.all isNameChar = true
  deriving DecidableEq

namespace Table

/-- The table of a name, if tables may be called that. -/
def ofName (name : String) : Except StorageError Table :=
  if h : name = "" then .error (.badTableName name .empty)
  else if hc : name.toList.all isNameChar = true then .ok ⟨name, h, hc⟩
  else .error (.badTableName name .foreignCharacter)

/-- Where the objects of a table of this name lie. -/
def root (name : String) : String :=
  "tables/" ++ name ++ "/"

/-- Where the markers lie, inside a table. -/
def timelineDirectory : String :=
  ".timeline/"

/-- Where the marker of a timestamp lies, inside a table. -/
def markerPath (timestamp : String) : String :=
  timelineDirectory ++ timestamp ++ ".json"

/-- Where an object of a table lies in storage. -/
def place (t : Table) (path : String) : String :=
  root t.name ++ path

/-- The last segment of a path. -/
def fileName (path : List Char) : List Char :=
  (path.reverse.takeWhile (· ≠ '/')).reverse

/-- The timestamp that the name of a marker gives, if this is a marker. -/
def stem? (name : List Char) : Option (List Char) :=
  let suffix := ".json".toList
  if suffix.isSuffixOf name then some (name.take (name.length - suffix.length)) else none

/-- What a path starts with, taken away. -/
def relative? (t : Table) (path : String) : Option String :=
  let start := (root t.name).toList
  if start.isPrefixOf path.toList then some (String.ofList (path.toList.drop start.length))
  else none

/-- A path has a segment that stands for its directory or the one above. -/
def climbs (s : List Char) : Bool :=
  (s.splitOn '/').any fun segment => segment = ['.'] || segment = ['.', '.']

/-- What is wrong with a path inside a table; of several faults, the first that is
asked for here. -/
def fault? (path : String) : Option PathFault :=
  let s := path.toList
  if s.head? = some '/' ∨ s.head? = some '\\' then some .absolute
  else if s.contains '\\' then some .backslash
  else if s.contains '%' then some .percent
  else if s.any Text.isControl then some .control
  else if climbs s then some .traversal
  else none

/-- Asks storage on behalf of a table, unless the path is at fault. -/
def checked {α : Type} (path : String) (p : Program (Except StorageError α)) :
    Program (Except StorageError α) :=
  match fault? path with
  | some fault => .done (.error (.badPath path fault))
  | none => p

/-- The contents of an object of a table. -/
def get (t : Table) (path : String) : Program (Except StorageError Bytes) :=
  checked path (Program.storage (.get (t.place path)))

/-- What is known of an object of a table. -/
def head (t : Table) (path : String) : Program (Except StorageError (Option Storage.Meta)) :=
  checked path (Program.storage (.head (t.place path)))

/-- Writes an object of a table under a condition. -/
def put (t : Table) (path : String) (data : Bytes) (condition : Storage.Precondition) :
    Program (Except StorageError Storage.Written) :=
  checked path (Program.storage (.put (t.place path) data condition))

/-- The objects of a table whose paths start with a text, each with its version. -/
def list (t : Table) (start : String) :
    Program (Except StorageError (List (String × String))) :=
  checked start do
    let listed ← Program.storage (.list (t.place start))
    return listed.map fun metas =>
      metas.filterMap fun m => (t.relative? m.path).map (·, m.version)

end Table
end CommitTimeline
