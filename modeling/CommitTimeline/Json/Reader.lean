/-
# Reading JSON

`read?` takes the symbols of a text, characters and bytes that are none, and
gives the one value they spell, with blanks allowed around every part. It goes
down through arrays and objects by a fuel that the length of the text bounds,
since every step takes at least one symbol.
-/

import CommitTimeline.Json.Basic
import CommitTimeline.Text.Utf8

namespace CommitTimeline
namespace Json

/-- What a text is read from: a character, or a byte that belongs to none. -/
abbrev Symbol := Option Char

/-- The blanks that may stand around the parts of a value. -/
def isSpace (c : Symbol) : Bool :=
  c = some ' ' || c = some '\t' || c = some '\n' || c = some '\r'

/-- The symbols after any blanks. -/
def skip (s : List Symbol) : List Symbol :=
  s.dropWhile isSpace

/-- What follows the given word. -/
def word? : List Char → List Symbol → Option (List Symbol)
  | [], s => some s
  | c :: cs, some d :: s => if c = d then word? cs s else none
  | _ :: _, _ => none

/-- The digits at the start of a text, with what follows them. -/
def digits : List Symbol → List Char × List Symbol
  | some c :: s => if c.isDigit then ((digits s).map (c :: ·) id) else ([], some c :: s)
  | s => ([], s)

/-- One or more digits. -/
def digits? (s : List Symbol) : Option (List Char × List Symbol) :=
  let (ds, rest) := digits s
  if ds = [] then none else some (ds, rest)

/-- The digits before the point: a zero stands alone. -/
def whole? (s : List Symbol) : Option (List Char × List Symbol) := do
  let (ds, rest) ← digits? s
  if ds.head? = some '0' ∧ ds.length ≠ 1 then none else some (ds, rest)

/-- The digits after a point, if there is a point. -/
def fraction? : List Symbol → Option (Option (List Char) × List Symbol)
  | some '.' :: s => (digits? s).map fun (ds, rest) => (some ds, rest)
  | s => some (none, s)

/-- The digits of an exponent, with its sign. -/
def exponentDigits? : List Symbol → Option (Option (Bool × List Char) × List Symbol)
  | some '-' :: s => (digits? s).map fun (ds, rest) => (some (true, ds), rest)
  | some '+' :: s => (digits? s).map fun (ds, rest) => (some (false, ds), rest)
  | s => (digits? s).map fun (ds, rest) => (some (false, ds), rest)

/-- An exponent, if there is one. -/
def exponent? : List Symbol → Option (Option (Bool × List Char) × List Symbol)
  | some 'e' :: s | some 'E' :: s => exponentDigits? s
  | s => some (none, s)

/-- The sign of a number. -/
def sign : List Symbol → Bool × List Symbol
  | some '-' :: s => (true, s)
  | s => (false, s)

/-- A number, or what is broken if it is too large. -/
def number? (s : List Symbol) : Option (Json × List Symbol) := do
  let (negative, s) := sign s
  let (whole, s) ← whole? s
  let (fraction, s) ← fraction? s
  let (exponent, s) ← exponent? s
  let n : Number := ⟨negative, whole, fraction, exponent⟩
  return (if n.overflows then .broken else .number n, s)

/-- A part of a text between its quotes. -/
inductive Piece where
  /-- A character, written as itself or escaped by a letter. -/
  | char (c : Char)
  /-- A UTF-16 unit, escaped by four hexadecimal digits. -/
  | unit (n : Nat)
  /-- A byte that belongs to no character. -/
  | stray
  deriving DecidableEq, Repr

/-- The value of a hexadecimal digit. -/
def hexValue? (c : Symbol) : Option Nat :=
  match c with
  | some c =>
    if c.isDigit then some (c.toNat - 48)
    else if 'a' ≤ c ∧ c ≤ 'f' then some (c.toNat - 87)
    else if 'A' ≤ c ∧ c ≤ 'F' then some (c.toNat - 55)
    else none
  | none => none

/-- The character that a letter stands for after a backslash. -/
def unescape? (c : Char) : Option Char :=
  if c = '"' ∨ c = '\\' ∨ c = '/' then some c
  else if c = 'b' then some '\x08'
  else if c = 'f' then some '\x0c'
  else if c = 'n' then some '\n'
  else if c = 'r' then some '\r'
  else if c = 't' then some '\t'
  else none

/-- The pieces up to the closing quote, with what follows it. -/
def pieces? : List Symbol → Option (List Piece × List Symbol)
  | [] => none
  | some '"' :: s => some ([], s)
  | some '\\' :: some 'u' :: a :: b :: c :: d :: s => do
    let n := ((← hexValue? a) * 16 + (← hexValue? b)) * 256 + (← hexValue? c) * 16 + (← hexValue? d)
    (pieces? s).map fun (ps, rest) => (.unit n :: ps, rest)
  | some '\\' :: some c :: s => do
    let c ← unescape? c
    (pieces? s).map fun (ps, rest) => (.char c :: ps, rest)
  | some '\\' :: _ => none
  | some c :: s =>
    if c.toNat < 0x20 then none
    else (pieces? s).map fun (ps, rest) => (.char c :: ps, rest)
  | none :: s => (pieces? s).map fun (ps, rest) => (.stray :: ps, rest)

/-- The characters that pieces denote: the halves of a surrogate pair belong
together, and neither stands alone. -/
def textChars? : List Piece → Option (List Char)
  | [] => some []
  | .char c :: ps => (textChars? ps).map (c :: ·)
  | .unit a :: ps =>
    if 0xD800 ≤ a ∧ a < 0xDC00 then
      match ps with
      | .unit b :: ps =>
        if 0xDC00 ≤ b ∧ b < 0xE000 then
          (textChars? ps).map (Char.ofNat (0x10000 + (a - 0xD800) * 0x400 + (b - 0xDC00)) :: ·)
        else none
      | _ => none
    else if 0xDC00 ≤ a ∧ a < 0xE000 then none
    else (textChars? ps).map (Char.ofNat a :: ·)
  | .stray :: _ => none

/-- A text after its opening quote; the value is `none` if it denotes no text. -/
def text? (s : List Symbol) : Option (Option String × List Symbol) :=
  (pieces? s).map fun (ps, rest) => ((textChars? ps).map String.ofList, rest)

/-- An object of some members, broken if one has no text for a key. -/
def ofMembers (members : List (Option String × Json)) : Json :=
  match members.mapM fun (k, v) => k.map (·, v) with
  | some members => .object members
  | none => .broken

mutual

/-- A value, with what follows it. -/
def value? : Nat → List Symbol → Option (Json × List Symbol)
  | 0, _ => none
  | fuel + 1, s =>
    match skip s with
    | some '[' :: rest =>
      match skip rest with
      | some ']' :: rest => some (.array [], rest)
      | rest => (items? fuel rest).map fun (items, rest) => (.array items, rest)
    | some '{' :: rest =>
      match skip rest with
      | some '}' :: rest => some (.object [], rest)
      | rest => (members? fuel rest).map fun (members, rest) => (ofMembers members, rest)
    | some '"' :: rest =>
      (text? rest).map fun (t, rest) => (match t with | some t => .text t | none => .broken, rest)
    | some 'n' :: rest => (word? ['u', 'l', 'l'] rest).map (.null, ·)
    | some 't' :: rest => (word? ['r', 'u', 'e'] rest).map (.bool true, ·)
    | some 'f' :: rest => (word? ['a', 'l', 's', 'e'] rest).map (.bool false, ·)
    | rest => number? rest

/-- One or more values up to the end of an array. -/
def items? : Nat → List Symbol → Option (List Json × List Symbol)
  | 0, _ => none
  | fuel + 1, s => do
    let (item, s) ← value? fuel s
    match skip s with
    | some ',' :: s => (items? fuel s).map fun (items, rest) => (item :: items, rest)
    | some ']' :: s => some ([item], s)
    | _ => none

/-- One or more members up to the end of an object. -/
def members? : Nat → List Symbol → Option (List (Option String × Json) × List Symbol)
  | 0, _ => none
  | fuel + 1, s =>
    match skip s with
    | some '"' :: s => do
      let (k, s) ← text? s
      match skip s with
      | some ':' :: s =>
        let (v, s) ← value? fuel s
        match skip s with
        | some ',' :: s => (members? fuel s).map fun (members, rest) => ((k, v) :: members, rest)
        | some '}' :: s => some ([(k, v)], s)
        | _ => none
      | _ => none
    | _ => none

end

/-- The value that symbols spell. -/
def read? (s : List Symbol) : Option Json := do
  let (j, rest) ← value? (2 * s.length + 1) s
  if skip rest = [] then some j else none

/-- The value that bytes spell. -/
def ofBytes? (bs : Bytes) : Option Json :=
  read? (Text.symbols bs)

/-- The value that a text spells. -/
def ofString? (s : String) : Option Json :=
  read? (s.toList.map some)

end Json
end CommitTimeline
