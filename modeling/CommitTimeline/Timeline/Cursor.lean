/-
# Cursors

A cursor walks the instants that a filter selects in a timeline as it was when the
walk began; what happens to the timeline since does not show.
-/

import CommitTimeline.Timeline

namespace CommitTimeline

/-- A walk through the instants that a filter selects. -/
structure Cursor where
  filter : Filter
  rest : List Instant

namespace Cursor

/-- The walk from the start of a timeline. -/
def start (t : Timeline) (f : Filter) : Cursor :=
  ⟨f, t.instants⟩

/-- The next selected instant, with the walk behind it. -/
def next (c : Cursor) : Option Instant × Cursor :=
  match c.rest.dropWhile fun i => !c.filter.selects i with
  | [] => (none, { c with rest := [] })
  | i :: rest => (some i, { c with rest := rest })

end Cursor
end CommitTimeline
