/-
# Character classes by ranges

A class of characters is given by the first and last code points of the runs that
it consists of.
-/

namespace CommitTimeline
namespace Text

/-- The code point of a character lies in one of the runs. -/
def inRanges (runs : List (Nat × Nat)) (c : Char) : Bool :=
  runs.any fun r => r.1 ≤ c.toNat && c.toNat ≤ r.2

end Text
end CommitTimeline
