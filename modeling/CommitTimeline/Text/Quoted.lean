/-
# Text in quotes

A text as a message shows it: between quotes, with an escape for every character
that would not be seen as itself. The quote and the backslash get a backslash,
four control characters a letter or a digit after one, and every other hidden
character its code point in hexadecimal digits.
-/

import CommitTimeline.Text.Blank
import CommitTimeline.Text.Extending
import CommitTimeline.Text.Ranges
import CommitTimeline.Text.Unassigned

namespace CommitTimeline
namespace Text

/-- First and last code points of the runs of format characters, private-use
characters, separators other than the space, and letters that fill a place without
being drawn. -/
def invisibleRanges : List (Nat × Nat) :=
  [(0xA0, 0xA0), (0xAD, 0xAD), (0x600, 0x605), (0x61C, 0x61C), (0x6DD, 0x6DD), (0x70F, 0x70F),
    (0x890, 0x891), (0x8E2, 0x8E2), (0x115F, 0x1160), (0x1680, 0x1680), (0x180E, 0x180E),
    (0x2000, 0x200B), (0x200D, 0x200F), (0x2028, 0x202F), (0x205F, 0x2064), (0x2066, 0x206F),
    (0x3000, 0x3000), (0x3164, 0x3164), (0xE000, 0xF8FF), (0xFEFF, 0xFEFF), (0xFFA0, 0xFFA0),
    (0xFFF9, 0xFFFB), (0x110BD, 0x110BD), (0x110CD, 0x110CD), (0x13430, 0x1343F),
    (0x1BCA0, 0x1BCA3), (0x1D173, 0x1D17A), (0xE0001, 0xE0001), (0xF0000, 0xFFFFD),
    (0x100000, 0x10FFFD)]

/-- The halfwidth marks of Katakana: they extend the letter before them, and yet take
a place of their own when they are drawn. -/
def isHalfwidthMark (c : Char) : Bool :=
  c = '\uFF9E' || c = '\uFF9F'

/-- The characters that are not seen as themselves. -/
def isHidden (c : Char) : Bool :=
  isControl c || isUnassigned c || (isExtending c && !isHalfwidthMark c) ||
    inRanges invisibleRanges c

/-- A character as it stands between the quotes. -/
def quotedChar (c : Char) : List Char :=
  if c = '"' ∨ c = '\\' then ['\\', c]
  else if c = '\x00' then ['\\', '0']
  else if c = '\t' then ['\\', 't']
  else if c = '\n' then ['\\', 'n']
  else if c = '\r' then ['\\', 'r']
  else if isHidden c then ['\\', 'u', '{'] ++ Nat.toDigits 16 c.toNat ++ ['}']
  else [c]

/-- A text between quotes. -/
def quoted (s : String) : String :=
  String.ofList ('"' :: s.toList.flatMap quotedChar ++ ['"'])

end Text
end CommitTimeline
