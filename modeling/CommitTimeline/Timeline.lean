/-
# Timelines

A timeline is a list of entries in the order of their timestamps, each an instant
with its details and the time it was requested. `ofEntries` sorts what was loaded,
`upsert` puts one entry in its place; entries of one timestamp stay in the order
in which they came, and the last of them speaks for the timestamp.
-/

import CommitTimeline.Instant.Filter
import CommitTimeline.Marker

namespace CommitTimeline

/-- An entry is what its marker stores. -/
abbrev Entry := Marker

/-- A list of entries in the order of their timestamps. -/
structure Timeline where
  entries : List Entry
  sorted : entries.Pairwise fun a b => a.timestamp ≤ b.timestamp
  deriving DecidableEq

namespace Timestamp

/-- A timestamp is not after itself. -/
theorem le_refl (a : Timestamp) : a ≤ a :=
  String.le_refl a.text

/-- What is not after something is not after anything later either. -/
theorem le_trans {a b c : Timestamp} (h : a ≤ b) (h' : b ≤ c) : a ≤ c :=
  String.le_trans h h'

/-- Of two timestamps one is not after the other. -/
theorem le_total (a b : Timestamp) : a ≤ b ∨ b ≤ a :=
  String.le_total a.text b.text

/-- Two timestamps are the same if neither is after the other. -/
theorem le_antisymm {a b : Timestamp} (h : a ≤ b) (h' : b ≤ a) : a = b := by
  obtain ⟨a⟩ := a
  obtain ⟨b⟩ := b
  exact congrArg mk (String.le_antisymm h h')

/-- A timestamp that is not at most another one is after it. -/
theorem not_le {a b : Timestamp} : ¬a ≤ b ↔ b < a :=
  String.not_le

/-- A timestamp that is not before another one is at least as late. -/
theorem not_lt {a b : Timestamp} : ¬a < b ↔ b ≤ a :=
  String.not_lt

/-- What is before is not after. -/
theorem le_of_lt {a b : Timestamp} (h : a < b) : a ≤ b :=
  (le_total a b).resolve_right (not_le.2 h)

end Timestamp

namespace Timeline

/-- No entries. -/
def empty : Timeline := ⟨[], .nil⟩

/-- Puts an entry before the first one that is not earlier. -/
def place (e : Entry) : List Entry → List Entry
  | [] => [e]
  | x :: xs => if x.timestamp < e.timestamp then x :: place e xs else e :: x :: xs

/-- A placed entry is added to the others. -/
theorem mem_place {e x : Entry} {l : List Entry} : x ∈ place e l ↔ x = e ∨ x ∈ l := by
  induction l with
  | nil => simp [place]
  | cons y ys ih =>
    simp only [place]
    split
    · simp only [List.mem_cons, ih]
      constructor
      · rintro (h | h | h) <;> simp [h]
      · rintro (h | h | h) <;> simp [h]
    · simp

/-- What was in order stays so when an entry is placed. -/
theorem sorted_place {e : Entry} {l : List Entry}
    (h : l.Pairwise fun a b => a.timestamp ≤ b.timestamp) :
    (place e l).Pairwise fun a b => a.timestamp ≤ b.timestamp := by
  induction l with
  | nil => simp [place]
  | cons y ys ih =>
    rw [List.pairwise_cons] at h
    simp only [place]
    split
    · rename_i hlt
      rw [List.pairwise_cons]
      refine ⟨fun x hx => ?_, ih h.2⟩
      rcases mem_place.1 hx with rfl | hx
      · exact Timestamp.le_of_lt hlt
      · exact h.1 x hx
    · rename_i hlt
      rw [List.pairwise_cons]
      refine ⟨fun x hx => ?_, List.pairwise_cons.2 h⟩
      rcases List.mem_cons.1 hx with rfl | hx
      · exact Timestamp.not_lt.1 hlt
      · exact Timestamp.le_trans (Timestamp.not_lt.1 hlt) (h.1 x hx)

/-- The entries of a list, sorted; those of one timestamp keep their order. -/
def sort (l : List Entry) : List Entry :=
  l.foldr place []

/-- Sorted entries are in the order of their timestamps. -/
theorem sorted_sort (l : List Entry) :
    (sort l).Pairwise fun a b => a.timestamp ≤ b.timestamp := by
  induction l with
  | nil => exact .nil
  | cons e l ih => exact sorted_place ih

/-- The timeline of some entries. -/
def ofEntries (l : List Entry) : Timeline :=
  ⟨sort l, sorted_sort l⟩

/-- Puts an entry in the place of the last one of its timestamp, or else behind
those before it. -/
def put (e : Entry) : List Entry → List Entry
  | [] => [e]
  | x :: xs =>
    if e.timestamp < x.timestamp then e :: x :: xs
    else if e.timestamp = x.timestamp ∧ ∀ y ∈ xs.head?, y.timestamp ≠ e.timestamp then e :: xs
    else x :: put e xs

/-- After an entry is put, there is nothing but it and what was there. -/
theorem mem_put {e x : Entry} {l : List Entry} (h : x ∈ put e l) : x = e ∨ x ∈ l := by
  induction l with
  | nil => simpa [put] using h
  | cons y ys ih =>
    simp only [put] at h
    split at h
    · simpa using h
    split at h
    · rcases List.mem_cons.1 h with h | h
      · exact .inl h
      · exact .inr (List.mem_cons_of_mem _ h)
    · rcases List.mem_cons.1 h with h | h
      · exact .inr (h ▸ List.mem_cons_self)
      · exact (ih h).imp_right (List.mem_cons_of_mem _)

/-- What was in order stays so when an entry is put. -/
theorem sorted_put {e : Entry} {l : List Entry}
    (h : l.Pairwise fun a b => a.timestamp ≤ b.timestamp) :
    (put e l).Pairwise fun a b => a.timestamp ≤ b.timestamp := by
  induction l with
  | nil => simp [put]
  | cons y ys ih =>
    rw [List.pairwise_cons] at h
    simp only [put]
    split
    · rename_i hlt
      rw [List.pairwise_cons]
      refine ⟨fun x hx => ?_, List.pairwise_cons.2 h⟩
      rcases List.mem_cons.1 hx with rfl | hx
      · exact Timestamp.le_of_lt hlt
      · exact Timestamp.le_trans (Timestamp.le_of_lt hlt) (h.1 x hx)
    split
    · rename_i heq
      rw [List.pairwise_cons]
      exact ⟨fun x hx => heq.1 ▸ h.1 x hx, h.2⟩
    · rename_i hlt _
      rw [List.pairwise_cons]
      refine ⟨fun x hx => ?_, ih h.2⟩
      rcases mem_put hx with rfl | hx
      · exact Timestamp.not_lt.1 hlt
      · exact h.1 x hx

/-- The timeline with an entry put in its place. -/
def upsert (t : Timeline) (e : Entry) : Timeline :=
  ⟨put e t.entries, sorted_put t.sorted⟩

/-- The entry that speaks for a timestamp: the last one. -/
def find? (t : Timeline) (timestamp : Timestamp) : Option Entry :=
  t.entries.reverse.find? fun e => e.timestamp = timestamp

/-- The number of entries. -/
def length (t : Timeline) : Nat :=
  t.entries.length

/-- The instants, in the order of their timestamps. -/
def instants (t : Timeline) : List Instant :=
  t.entries.map (·.instant)

/-- The instants that a filter selects. -/
def select (t : Timeline) (f : Filter) : List Instant :=
  t.instants.filter f.selects

/-- The first instant that a filter selects. -/
def first? (t : Timeline) (f : Filter) : Option Instant :=
  t.instants.find? f.selects

/-- The last instant that a filter selects. -/
def last? (t : Timeline) (f : Filter) : Option Instant :=
  t.instants.reverse.find? f.selects

/-- How many instants a filter selects. -/
def count (t : Timeline) (f : Filter) : Nat :=
  (t.select f).length

/-- The instant of a timestamp. -/
def instant? (t : Timeline) (timestamp : Timestamp) : Option Instant :=
  (t.find? timestamp).map (·.instant)

/-- The details of a timestamp. -/
def details? (t : Timeline) (timestamp : Timestamp) : Option Details :=
  (t.find? timestamp).map (·.details)

/-- The time at which the instant of a timestamp was requested, if it is known. -/
def requestedAt? (t : Timeline) (timestamp : Timestamp) : Option Moment :=
  (t.find? timestamp).bind (·.requestedAt)

/-- The first compaction that has not completed. -/
def pendingCompaction? (t : Timeline) : Option Instant :=
  t.first? .pendingCompaction

/-- The last compaction that has completed. -/
def lastCompaction? (t : Timeline) : Option Instant :=
  t.last? Filter.commits.completed

/-- The completed delta commits after a timestamp, or all of them. -/
def deltaCommitsAfter (t : Timeline) (after : Option Timestamp) : List Instant :=
  t.instants.filter fun i =>
    i.action = .deltaCommit && i.isCompleted &&
      match after with
      | some timestamp => decide (timestamp < i.timestamp)
      | none => true

/-- The completed delta commits that no completed compaction can have merged. -/
def openDeltaCommits (t : Timeline) : List Instant :=
  t.deltaCommitsAfter (t.lastCompaction?.map (·.timestamp))

/-- The timestamp of a new instant at a moment: the one of the moment, or if that is
not after the last instant, the next millisecond after it, or its successor if it
denotes no moment. -/
def newTimestamp (t : Timeline) (now : Moment) : Timestamp :=
  let candidate := Timestamp.ofMoment now
  match t.last? .all with
  | none => candidate
  | some last =>
    if last.timestamp < candidate then candidate
    else match last.timestamp.moment?.bind (·.later? 1) with
      | some next => Timestamp.ofMoment next
      | none => last.timestamp.successor

end Timeline
end CommitTimeline
