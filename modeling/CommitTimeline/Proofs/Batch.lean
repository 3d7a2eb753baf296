/-
# Sets of file groups and the plans that list them

`sortedSet` lists what it is given once each, in strict order. A set has one such list only, so
`sortedSet` is the sorted list of the members (`sortedSet_eq_sort`): neither their order nor their
repetitions show (`sortedSet_eq_iff`), and two lists behind one another give the union of their sets
(`sortedSet_append`).

A plan lists the file groups of its delta commits in this way. Which delta commit has touched a file
group, and which of them comes first, is no longer to be seen in it (`Plan.fileGroups_eq_iff`).
-/

import CommitTimeline.Batch
import Mathlib.Data.Finset.Sort
import Mathlib.Data.String.Basic

namespace CommitTimeline

/-- An insertion adds the one string and loses none. -/
theorem mem_insertSorted {x y : String} {l : List String} :
    y ∈ insertSorted x l ↔ y = x ∨ y ∈ l := by
  induction l with
  | nil => simp [insertSorted]
  | cons z zs ih =>
    rw [insertSorted]
    split
    · exact List.mem_cons
    split
    · rename_i h
      rw [List.mem_cons, h]
      constructor
      · exact .inr
      · rintro (rfl | hy)
        · exact .inl rfl
        · exact hy
    · rw [List.mem_cons, List.mem_cons, ih]
      exact or_left_comm

/-- An insertion into a strictly sorted list leaves it strictly sorted. -/
theorem pairwise_insertSorted {x : String} {l : List String} (h : l.Pairwise (· < ·)) :
    (insertSorted x l).Pairwise (· < ·) := by
  induction l with
  | nil => exact List.pairwise_singleton _ _
  | cons z zs ih =>
    rw [List.pairwise_cons] at h
    rw [insertSorted]
    split
    · rename_i hlt
      rw [List.pairwise_cons, List.pairwise_cons]
      refine ⟨?_, h⟩
      intro y hy
      rcases List.mem_cons.1 hy with rfl | hy
      · exact hlt
      · exact String.lt_trans hlt (h.1 y hy)
    split
    · exact List.pairwise_cons.2 h
    · rename_i hlt hne
      have hgt : z < x := by
        apply String.not_le.1
        intro hle
        exact hne (String.le_antisymm hle (String.not_lt.1 hlt))
      rw [List.pairwise_cons]
      refine ⟨?_, ih h.2⟩
      intro y hy
      rcases mem_insertSorted.1 hy with rfl | hy
      · exact hgt
      · exact h.1 y hy

/-- The sorted set has the strings of the list. -/
theorem mem_sortedSet {x : String} {l : List String} : x ∈ sortedSet l ↔ x ∈ l := by
  induction l with
  | nil => exact Iff.rfl
  | cons y l ih =>
    show x ∈ insertSorted y (sortedSet l) ↔ _
    rw [mem_insertSorted, List.mem_cons, ih]

/-- The sorted set is strictly sorted, so that it has no string twice. -/
theorem pairwise_sortedSet (l : List String) : (sortedSet l).Pairwise (· < ·) := by
  induction l with
  | nil => exact .nil
  | cons y l ih => exact pairwise_insertSorted ih

/-- **A set is listed in one way only,** which is the sorted one. -/
theorem sortedSet_eq_sort (l : List String) : sortedSet l = l.toFinset.sort := by
  refine (pairwise_sortedSet l).eq_of_mem_iff l.toFinset.sortedLT_sort.pairwise fun x => ?_
  rw [mem_sortedSet, Finset.mem_sort, List.mem_toFinset]

/-- The sorted set and the list are the same as sets. -/
theorem toFinset_sortedSet (l : List String) : (sortedSet l).toFinset = l.toFinset := by
  rw [sortedSet_eq_sort, Finset.sort_toFinset]

/-- The order and the repetitions of what a set is made from do not show. -/
theorem sortedSet_eq_iff {l m : List String} : sortedSet l = sortedSet m ↔ ∀ x, x ∈ l ↔ x ∈ m := by
  constructor
  · intro h x
    rw [← mem_sortedSet, h, mem_sortedSet]
  · intro h
    have hset : l.toFinset = m.toFinset := List.toFinset.ext h
    rw [sortedSet_eq_sort, sortedSet_eq_sort, hset]

/-- Two lists behind one another make the union of their sets. -/
theorem sortedSet_append (l m : List String) :
    sortedSet (l ++ m) = ((sortedSet l).toFinset ∪ (sortedSet m).toFinset).sort := by
  rw [sortedSet_eq_sort, List.toFinset_append, toFinset_sortedSet, toFinset_sortedSet]

/-- Two reports name the same file groups, in whatever order and however often each. -/
def CommitMetadata.NamesSame (m n : CommitMetadata) : Prop :=
  ∀ g, g ∈ m.fileGroups ↔ g ∈ n.fileGroups

namespace Plan

variable {commits other : List (Timestamp × CommitMetadata)} {g : FileGroup}

/-- A plan lists what some delta commit has touched. -/
theorem mem_fileGroups :
    g ∈ (ofDeltaCommits commits).fileGroups ↔ ∃ c ∈ commits, g ∈ c.2.fileGroups := by
  show g ∈ sortedSet _ ↔ _
  rw [mem_sortedSet, List.mem_flatMap]

/-- **Two plans list the same file groups just if the same ones have been touched.** -/
theorem fileGroups_eq_iff :
    (ofDeltaCommits other).fileGroups = (ofDeltaCommits commits).fileGroups ↔
      ∀ g, (∃ c ∈ other, g ∈ c.2.fileGroups) ↔ ∃ c ∈ commits, g ∈ c.2.fileGroups := by
  show sortedSet _ = sortedSet _ ↔ _
  rw [sortedSet_eq_iff]
  simp only [List.mem_flatMap]

/-- In which order the delta commits come does not show in the file groups. -/
theorem fileGroups_of_perm (h : other.Perm commits) :
    (ofDeltaCommits other).fileGroups = (ofDeltaCommits commits).fileGroups := by
  rw [fileGroups_eq_iff]
  intro g
  simp only [h.mem_iff]

/-- Nor does how often and in which order a report names them. -/
theorem fileGroups_of_namesSame
    (h : List.Forall₂ (fun c d => CommitMetadata.NamesSame c.2 d.2) commits other) :
    (ofDeltaCommits other).fileGroups = (ofDeltaCommits commits).fileGroups := by
  rw [fileGroups_eq_iff]
  intro g
  induction h with
  | nil => exact Iff.rfl
  | cons hcd _ ih => rw [List.exists_mem_cons_iff, List.exists_mem_cons_iff, ih, hcd g]

/-- A plan has nothing to merge just if no delta commit has touched a file group. -/
theorem isEmpty_iff :
    (ofDeltaCommits commits).isEmpty = true ↔ ∀ c ∈ commits, c.2.fileGroups = [] := by
  rw [isEmpty, List.isEmpty_iff, List.eq_nil_iff_forall_not_mem]
  simp only [mem_fileGroups, List.eq_nil_iff_forall_not_mem]
  constructor
  · intro h c hc g hg
    exact h g ⟨c, hc, hg⟩
  · rintro h g ⟨c, hc, hg⟩
    exact h c hc g hg

/-- The delta commits of two plans together touch the union of their file groups. -/
theorem fileGroups_append (commits more : List (Timestamp × CommitMetadata)) :
    (ofDeltaCommits (commits ++ more)).fileGroups =
      ((ofDeltaCommits commits).fileGroups.toFinset ∪
        (ofDeltaCommits more).fileGroups.toFinset).sort := by
  show sortedSet _ = ((sortedSet _).toFinset ∪ (sortedSet _).toFinset).sort
  rw [List.flatMap_append, sortedSet_append]

/-- **A plan keeps every delta commit and lists each file group once.** The delta commits stand in
the order in which they were given, and as often. The file groups stand in strict order, and are
those that some delta commit has touched, so the plan is empty just if none has touched any. They
stay the same if the delta commits are given in another order, and if a report names its file groups
in another order or more often. Of two lists of delta commits behind one another the plan lists the
sorted union of what the two plans list. -/
theorem lists_each_group_once (commits : List (Timestamp × CommitMetadata)) :
    (ofDeltaCommits commits).deltaCommits = commits.map (·.1) ∧
    (ofDeltaCommits commits).fileGroups.Pairwise (· < ·) ∧
    (∀ g, g ∈ (ofDeltaCommits commits).fileGroups ↔ ∃ c ∈ commits, g ∈ c.2.fileGroups) ∧
    ((ofDeltaCommits commits).isEmpty = true ↔ ∀ c ∈ commits, c.2.fileGroups = []) ∧
    (∀ other, other.Perm commits →
      (ofDeltaCommits other).fileGroups = (ofDeltaCommits commits).fileGroups) ∧
    (∀ other, List.Forall₂ (fun c d => CommitMetadata.NamesSame c.2 d.2) commits other →
      (ofDeltaCommits other).fileGroups = (ofDeltaCommits commits).fileGroups) ∧
    ∀ more, (ofDeltaCommits (commits ++ more)).fileGroups =
      ((ofDeltaCommits commits).fileGroups.toFinset ∪
        (ofDeltaCommits more).fileGroups.toFinset).sort :=
  ⟨rfl, pairwise_sortedSet _, fun _ => mem_fileGroups, isEmpty_iff, fun _ => fileGroups_of_perm,
    fun _ => fileGroups_of_namesSame, fileGroups_append commits⟩

/-- Two delta commits have touched one file group both. They are given in the other order, and then
the first report names its file groups in the other order and one of them again. -/
theorem lists_each_group_once_of_overlap :
    ∃ commits other again more : List (Timestamp × CommitMetadata),
      other.Perm commits ∧ other ≠ commits ∧
      List.Forall₂ (fun c d => CommitMetadata.NamesSame c.2 d.2) commits again ∧ again ≠ commits ∧
      (ofDeltaCommits commits).deltaCommits = [⟨"001"⟩, ⟨"002"⟩] ∧
      (ofDeltaCommits commits).isEmpty = false ∧
      (ofDeltaCommits commits).fileGroups = ["fg-1", "fg-2", "fg-3"] ∧
      (ofDeltaCommits other).fileGroups = ["fg-1", "fg-2", "fg-3"] ∧
      (ofDeltaCommits again).fileGroups = ["fg-1", "fg-2", "fg-3"] ∧
      (ofDeltaCommits (commits ++ more)).fileGroups =
        (["fg-1", "fg-2", "fg-3"].toFinset ∪ ["fg-0", "fg-2"].toFinset).sort := by
  let first : Timestamp × CommitMetadata := (⟨"001"⟩, ⟨["fg-2", "fg-1"], 10⟩)
  let repeated : Timestamp × CommitMetadata := (⟨"001"⟩, ⟨["fg-1", "fg-2", "fg-1"], 10⟩)
  let second : Timestamp × CommitMetadata := (⟨"002"⟩, ⟨["fg-1", "fg-3"], 5⟩)
  let third : Timestamp × CommitMetadata := (⟨"003"⟩, ⟨["fg-2", "fg-0"], 3⟩)
  have hswap : [second, first].Perm [first, second] := .swap first second []
  have hsame : CommitMetadata.NamesSame first.2 repeated.2 := by
    intro g
    simp [first, repeated, or_comm]
  have hagain : List.Forall₂ (fun c d => CommitMetadata.NamesSame c.2 d.2) [first, second]
      [repeated, second] := .cons hsame (.cons (fun _ => Iff.rfl) .nil)
  have hgroups : (ofDeltaCommits [first, second]).fileGroups = ["fg-1", "fg-2", "fg-3"] := by decide
  have hmore : (ofDeltaCommits [third]).fileGroups = ["fg-0", "fg-2"] := by decide
  obtain ⟨hkept, -, -, hempty, hperm, hnames, happend⟩ := lists_each_group_once [first, second]
  refine ⟨[first, second], [second, first], [repeated, second], [third], hswap, by decide, hagain,
    by decide, hkept, ?_, hgroups, (hperm _ hswap).trans hgroups,
    (hnames _ hagain).trans hgroups, ?_⟩
  · refine Bool.eq_false_iff.2 fun h => ?_
    exact absurd (hempty.1 h first List.mem_cons_self) (by decide)
  · rw [happend, hgroups, hmore]

end Plan
end CommitTimeline
