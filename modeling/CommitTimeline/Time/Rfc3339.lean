/-
# Moments as RFC 3339 text

`write` gives a moment in UTC: `2024-01-01T00:00:00.500Z`, with as many of 0, 3,
6 or 9 fraction digits as lose nothing, second 60 in a leap second, and a sign
before a year outside 0 to 9999. `read?` is lenient: it takes any offset, one
digit for two, blanks between the parts, a small `t`, a space for the `T` and
`UTC` for the `Z`.
-/

import CommitTimeline.Text.Blank
import CommitTimeline.Text.Numeral
import CommitTimeline.Time.Moment

namespace CommitTimeline

/-- A year has four digits; outside 0 to 9999 it has a sign and at least four. -/
def yearText (year : Int) : List Char :=
  if 0 ≤ year ∧ year ≤ 9999 then Text.fixed 4 year.toNat
  else (if year < 0 then '-' else '+') :: Text.padded 4 year.natAbs

namespace Rfc3339

/-- The fraction of a second, to the millisecond, microsecond or nanosecond. -/
def fraction (nano : Nat) : List Char :=
  if nano = 0 then []
  else if nano % 1000000 = 0 then '.' :: Text.fixed 3 (nano / 1000000)
  else if nano % 1000 = 0 then '.' :: Text.fixed 6 (nano / 1000)
  else '.' :: Text.fixed 9 nano

/-- The characters of a moment in UTC. -/
def write (m : Moment) : List Char :=
  let r := m.reading
  yearText r.date.year ++ '-' :: Text.fixed 2 r.date.month ++ '-' :: Text.fixed 2 r.date.day ++
    'T' :: Text.fixed 2 r.hour ++ ':' :: Text.fixed 2 r.minute ++ ':' :: Text.fixed 2 r.second ++
    fraction r.nano ++ ['Z']

/-- A number of one to `most` digits, with what follows it. -/
def digits? (most : Nat) (s : List Char) : Option (Nat × List Char) :=
  let ds := (s.take most).takeWhile Char.isDigit
  if ds = [] then none else some (Text.value ds, s.drop ds.length)

/-- A number after any blanks. -/
def number? (most : Nat) (s : List Char) : Option (Nat × List Char) :=
  digits? most (Text.trimStart s)

/-- A year after any blanks: a sign and any number of digits, or up to four digits. -/
def year? (s : List Char) : Option (Int × List Char) :=
  match Text.trimStart s with
  | '-' :: rest => (digits? rest.length rest).map fun (n, rest) => (-(n : Int), rest)
  | '+' :: rest => (digits? rest.length rest).map fun (n, rest) => ((n : Int), rest)
  | rest => (digits? 4 rest).map fun (n, rest) => ((n : Int), rest)

/-- What follows a separator and any blanks before it. -/
def after? (separator : Char) (s : List Char) : Option (List Char) :=
  match Text.trimStart s with
  | c :: rest => if c = separator then some rest else none
  | [] => none

/-- A fraction of a second in nanoseconds; digits beyond the ninth do not count. -/
def nano? : List Char → Option (Nat × List Char)
  | '.' :: s =>
    let ds := s.takeWhile Char.isDigit
    if ds = [] then none
    else some (Text.value ((ds ++ List.replicate 9 '0').take 9), s.drop ds.length)
  | s => some (0, s)

/-- Hours and minutes of an offset in seconds, perhaps with colons or blanks
between them. -/
def hoursMinutes? : List Char → Option (Nat × List Char)
  | a :: b :: s =>
    match s.dropWhile fun c => c = ':' || Text.isBlank c with
    | c :: d :: rest =>
      if [a, b, c, d].all Char.isDigit ∧ Text.value [c, d] < 60 then
        some (Text.value [a, b] * 3600 + Text.value [c, d] * 60, rest)
      else none
    | _ => none
  | _ => none

/-- An offset from UTC in seconds. -/
def offset? : List Char → Option (Int × List Char)
  | 'Z' :: rest | 'z' :: rest => some (0, rest)
  | '+' :: rest => (hoursMinutes? rest).map fun (n, rest) => ((n : Int), rest)
  | '-' :: rest | '−' :: rest => (hoursMinutes? rest).map fun (n, rest) => (-(n : Int), rest)
  | a :: b :: c :: rest =>
    if [a, b, c].map Char.toUpper = ['U', 'T', 'C'] then some (0, rest) else none
  | _ => none

/-- The moment that a lenient RFC 3339 text denotes. -/
def read? (s : List Char) : Option Moment := do
  let (year, s) ← year? s
  let s ← after? '-' s
  let (month, s) ← number? 2 s
  let s ← after? '-' s
  let (day, s) ← number? 2 s
  let s ← match s with
    | 'T' :: s | 't' :: s | ' ' :: s => some s
    | _ => none
  let (hour, s) ← number? 2 s
  let s ← after? ':' s
  let (minute, s) ← number? 2 s
  let s ← after? ':' s
  let (second, s) ← number? 2 s
  let (nano, s) ← nano? s
  let (offset, s) ← offset? (Text.trimStart s)
  if Text.trimStart s = [] ∧ offset.natAbs < 86400 then
    Reading.moment? ⟨⟨year, month, day⟩, hour, minute, second, nano⟩ offset
  else none

end Rfc3339
end CommitTimeline
