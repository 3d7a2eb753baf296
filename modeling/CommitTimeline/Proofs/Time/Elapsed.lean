/-
# Time that passes

What lies some milliseconds after a moment, said of the seconds and nanoseconds of both
(`Moment.IsAfter`): the calendar finds it just if it reaches that far (`Moment.later?_eq_some_iff`),
and the more milliseconds pass, the later it is (`Moment.IsAfter.le_iff`). The time between any two
moments of the calendar has so few milliseconds that 64 bits count them (`Moment.since_lt`).
-/

import CommitTimeline.Time.Moment

namespace CommitTimeline

namespace Moment

/-- `n` comes some nanoseconds after `m`: in the leap second that `m` lies in, or else so much
later on a line of seconds on which a leap second has no place. What leaves a leap second leaves
it after the second that it is written in. -/
inductive IsAfter (m : Moment) (nanoseconds : Nat) (n : Moment) : Prop where
  | within (leap : m.IsLeap) (second : n.second = m.second) (nano : n.nano = m.nano + nanoseconds)
  | beyond (leaves : m.IsLeap → 2000000000 ≤ m.nano + nanoseconds) (common : ¬n.IsLeap)
    (line : n.second * 1000000000 + n.nano =
      m.second * 1000000000 + (m.nano % 1000000000 + nanoseconds : Nat))

variable {m n n' : Moment} {ms k k' : Nat}

/-- A moment is made of a second and its nanoseconds just if these are its own. -/
theorem of?_eq_some_iff {second : Int} {nano : Nat} :
    of? second nano = some n ↔ n.second = second ∧ n.nano = nano := by
  rw [of?]
  constructor
  · intro h
    split at h
    · obtain rfl := Option.some.inj h
      exact ⟨rfl, rfl⟩
    · cases h
  · rintro ⟨rfl, rfl⟩
    exact dif_pos n.valid

/-- **What is some milliseconds later,** if the calendar reaches that far. -/
theorem later?_eq_some_iff : m.later? ms = some n ↔ m.IsAfter (ms * 1000000) n := by
  unfold later?
  dsimp only
  split
  · rename_i h
    obtain ⟨hleap, hlt⟩ := h
    rw [of?_eq_some_iff]
    constructor
    · rintro ⟨hsecond, hnano⟩
      exact .within hleap hsecond hnano
    · rintro (⟨-, hsecond, hnano⟩ | ⟨hleaves, -, -⟩)
      · exact ⟨hsecond, hnano⟩
      · exact absurd (hleaves hleap) (by omega)
  · rename_i h
    rw [of?_eq_some_iff]
    constructor
    · rintro ⟨hsecond, hnano⟩
      refine .beyond ?_ ?_ ?_
      · exact fun hleap => Nat.not_lt.1 fun hlt => h ⟨hleap, hlt⟩
      · show ¬1000000000 ≤ n.nano
        omega
      · omega
    · rintro (⟨hleap, -, hnano⟩ | ⟨-, hcommon, hline⟩)
      · have := n.valid.2.2.1
        exact absurd ⟨hleap, by omega⟩ h
      · change ¬1000000000 ≤ n.nano at hcommon
        omega

/-- **The more time has passed, the later it is.** -/
theorem IsAfter.le_iff (h : m.IsAfter k n) (h' : m.IsAfter k' n') : n ≤ n' ↔ k ≤ k' := by
  have hn := n.valid.2.2.1
  have hn' := n'.valid.2.2.1
  have hle : n ≤ n' ↔ ¬(n'.second < n.second ∨ n'.second = n.second ∧ n'.nano < n.nano) := Iff.rfl
  rw [hle]
  -- each of the two may still be in the leap second that `m` lies in
  rcases h with ⟨hleap, hsecond, hnano⟩ | ⟨hleaves, hcommon, hline⟩ <;>
    rcases h' with ⟨hleap', hsecond', hnano'⟩ | ⟨hleaves', hcommon', hline'⟩
  · omega
  · have hfar := hleaves' hleap
    change 1000000000 ≤ m.nano at hleap
    change ¬1000000000 ≤ n'.nano at hcommon'
    omega
  · have hfar := hleaves hleap'
    change 1000000000 ≤ m.nano at hleap'
    change ¬1000000000 ≤ n.nano at hcommon
    omega
  · change ¬1000000000 ≤ n.nano at hcommon
    change ¬1000000000 ≤ n'.nano at hcommon'
    omega

/-- The moments of the calendar are not too far apart for 64 bits to count the milliseconds. -/
theorem since_lt (a b : Moment) : a.since b < (UInt64.size * 1000000 : Nat) := by
  obtain ⟨-, ha, hna, -⟩ := a.valid
  obtain ⟨hb, -⟩ := b.valid
  have hleap : ∀ l : Int, l ≤ 1 → (a.second - b.second + l) * 1000000000 +
      ((a.nano : Int) - b.nano) < (UInt64.size * 1000000 : Nat) := by
    intro l hl
    rw [UInt64.size]
    omega
  unfold since
  dsimp only
  split
  · exact hleap 1 (by decide)
  split
  · exact hleap (-1) (by decide)
  · exact hleap 0 (by decide)

/-- What is cut to whole milliseconds fits in 64 bits as well. -/
theorem milliseconds_since_lt (a b : Moment) :
    ((a.since b).tdiv 1000000).toNat < UInt64.size := by
  have hlt := a.since_lt b
  have hsize : 0 < UInt64.size := by decide
  rw [Int.tdiv_eq_ediv]
  split
  · omega
  · -- a negative number of nanoseconds is cut towards zero
    show (a.since b / 1000000 + 1).toNat < UInt64.size
    omega

end Moment

end CommitTimeline
