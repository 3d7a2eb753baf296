/-
# Configuration from the environment

Three variables override the standard configuration. Blanks around a value do not
count, and a blank value is as good as none.
-/

import CommitTimeline.Config
import CommitTimeline.Text.Numeral

namespace CommitTimeline
namespace Config

/-- The variable that turns inline compaction on or off. -/
def inlineVariable : String := "MANTLE_INLINE_COMPACTION"

/-- The variable for the number of delta commits. -/
def commitsVariable : String := "MANTLE_COMPACTION_MAX_DELTA_COMMITS"

/-- The variable for the time, in seconds. -/
def secondsVariable : String := "MANTLE_COMPACTION_MAX_DELTA_SECONDS"

/-- The value of a variable without blanks around it, unless it is blank. -/
def trimmed? (v : Option String) : Option (List Char) :=
  v.bind fun v =>
    let s := Text.trim v.toList
    if s = [] then none else some s

/-- A truth value in one of its spellings, large and small letters alike. -/
def flag? (s : List Char) : Option Bool :=
  let word := String.ofList (s.map Char.toLower)
  if ["true", "1", "yes", "y"].contains word then some true
  else if ["false", "0", "no", "n"].contains word then some false
  else none

/-- The configuration that a look-up of variables gives. -/
def ofLookup (lookup : String → Option String) : Except Error Config := do
  let isInline ← match trimmed? (lookup inlineVariable) with
    | none => .ok standard.isInline
    | some s => match flag? s with
      | some b => .ok b
      | none => .error (.invalidConfig (inlineVariable ++ " must be a boolean (true/false/1/0)"))
  let maxDeltaCommits ← match trimmed? (lookup commitsVariable) with
    | none => .ok standard.maxDeltaCommits
    | some s => match Text.readUpTo (UInt32.size - 1) s with
      | .ok n => .ok n.toUInt32
      | .error fault =>
        .error (.invalidConfig (commitsVariable ++ " must be a u32: " ++ fault.message))
  let maxDeltaTime ← match trimmed? (lookup secondsVariable) with
    | none => .ok standard.maxDeltaTime
    | some s => match Text.readUpTo (UInt64.size - 1) s with
      | .ok n => .ok (.ofSeconds n.toUInt64)
      | .error fault =>
        .error (.invalidConfig (secondsVariable ++ " must be a u64: " ++ fault.message))
  let config : Config := ⟨isInline, maxDeltaCommits, maxDeltaTime⟩
  config.validate
  return config

end Config
end CommitTimeline
