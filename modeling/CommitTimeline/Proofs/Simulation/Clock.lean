/-
# When a clock that is moved by hand goes back

A clock shows its base plus the time that it has counted, as long as 63 bits count it and the
calendar reaches that far (`Clock.now?_eq_some_iff`). The more it has counted, the later is what it
shows (`Clock.now_le_iff`). So it goes back just if its count does. Moving it to a moment never
lowers the count, and moving it forward does just if the count would go beyond 64 bits
(`Clock.elapsed_le_iff_not_overflows`). A run of moves of which none does this never goes back
(`Clock.never_goes_back`), and one that does may show an earlier time than before
(`Clock.not_never_goes_back`).
-/

import CommitTimeline.Proofs.Time.Elapsed
import CommitTimeline.Simulation.Clock
import Mathlib.Data.List.Chain

namespace CommitTimeline
namespace Simulation
namespace Clock

/-- What a clock is told. -/
inductive Move where
  | advance (d : Duration)
  | advanceTo (target : Moment)

/-- What becomes of a clock that is moved. -/
def after (c : Clock) : Move → Except ClockFault Clock
  | .advance d => c.advance d
  | .advanceTo target => c.advanceTo target

/-- The clock before each of some moves and after the last one, if each of them can be made. -/
def run (c : Clock) : List Move → Except ClockFault (List Clock)
  | [] => .ok [c]
  | move :: moves =>
    match c.after move with
    | .ok c' => (c'.run moves).map (c :: ·)
    | .error fault => .error fault

/-- The move would take the count beyond 64 bits. -/
def Overflows (c : Clock) : Move → Prop
  | .advance d => UInt64.size ≤ c.passed.toNat + d.milliseconds
  | .advanceTo _ => False

variable {a b c c' : Clock} {move : Move} {moves : List Move} {clocks : List Clock}
  {base m n : Moment}

/-- Of three counts in order the first one is not above the last. -/
instance : Trans (fun a b : Clock => a.elapsed ≤ b.elapsed)
    (fun a b : Clock => a.elapsed ≤ b.elapsed)
    (fun a b : Clock => a.elapsed ≤ b.elapsed) :=
  ⟨Nat.le_trans⟩

/-- What has elapsed is compared by the milliseconds that have passed. -/
theorem elapsed_le_iff : a.elapsed ≤ b.elapsed ↔ a.passed.toNat ≤ b.passed.toNat := by
  show a.passed.toNat * 1000000 ≤ b.passed.toNat * 1000000 ↔ _
  omega

/-- **A clock shows its base plus the time that it has counted,** if 63 bits count it and the
calendar reaches that far. -/
theorem now?_eq_some_iff :
    c.now? = some m ↔
      c.passed.toNat < UInt64.size / 2 ∧ c.base.IsAfter c.elapsed.nanoseconds m := by
  rw [now?]
  split
  · rename_i hsigned
    exact Moment.later?_eq_some_iff.trans (and_iff_right hsigned).symm
  · rename_i hsigned
    exact iff_of_false (Option.some_ne_none m).symm fun h => hsigned h.1

/-- **Of two clocks with one base the one that has counted less shows the earlier time.** -/
theorem now_le_iff (hbase : a.base = b.base) (hm : a.now? = some m) (hn : b.now? = some n) :
    m ≤ n ↔ a.elapsed ≤ b.elapsed :=
  (hbase ▸ (now?_eq_some_iff.1 hm).2).le_iff (now?_eq_some_iff.1 hn).2

/-- A clock that is moved to a moment counts no less than before. -/
theorem advanceTo_eq_ok {target : Moment} (h : c.advanceTo target = .ok c') :
    c'.base = c.base ∧ c.passed.toNat ≤ c'.passed.toNat := by
  unfold advanceTo at h
  dsimp only at h
  split at h
  · cases h
  split at h
  · cases h
  split at h
  · cases h
  · rename_i hms hback
    obtain rfl := Except.ok.inj h
    refine ⟨rfl, ?_⟩
    show _ ≤ (UInt64.ofNat _).toNat
    rw [UInt64.toNat_ofNat_of_lt' (target.milliseconds_since_lt c.base)]
    exact Nat.not_lt.1 hback

/-- A clock that is moved forward counts in 64 bits. -/
theorem advance_eq_ok {d : Duration} (h : c.advance d = .ok c') :
    c'.base = c.base ∧ d.milliseconds < UInt64.size ∧
      c'.passed.toNat = (c.passed.toNat + d.milliseconds) % UInt64.size := by
  unfold advance at h
  split at h
  · rename_i hd
    obtain rfl := Except.ok.inj h
    refine ⟨rfl, hd, ?_⟩
    show (c.passed + UInt64.ofNat d.milliseconds).toNat = _
    rw [UInt64.toNat_add, UInt64.toNat_ofNat_of_lt' hd]
  · cases h

/-- A move leaves the base of the clock as it is. -/
theorem after_base (h : c.after move = .ok c') : c'.base = c.base := by
  cases move with
  | advance d => exact (advance_eq_ok h).1
  | advanceTo target => exact (advanceTo_eq_ok h).1

/-- **A move lowers the count just if it would take it beyond 64 bits.** -/
theorem elapsed_le_iff_not_overflows (h : c.after move = .ok c') :
    c.elapsed ≤ c'.elapsed ↔ ¬c.Overflows move := by
  rw [elapsed_le_iff]
  cases move with
  | advance d =>
    obtain ⟨-, hd, hpassed⟩ := advance_eq_ok h
    have hc := c.passed.toNat_lt_size
    rw [hpassed]
    show _ ↔ ¬UInt64.size ≤ c.passed.toNat + d.milliseconds
    by_cases hfits : c.passed.toNat + d.milliseconds < UInt64.size
    · rw [Nat.mod_eq_of_lt hfits]
      omega
    · rw [Nat.mod_eq_sub_mod (by omega), Nat.mod_eq_of_lt (by omega)]
      omega
  | advanceTo target => exact iff_of_true (advanceTo_eq_ok h).2 not_false

/-- A run of moves is the first one followed by the run of the others. -/
theorem run_cons_eq_ok (h : c.run (move :: moves) = .ok clocks) :
    ∃ c' rest, c.after move = .ok c' ∧ c'.run moves = .ok rest ∧ clocks = c :: rest := by
  rw [run] at h
  split at h
  · rename_i c' hafter
    cases hrest : c'.run moves with
    | error fault =>
      rw [hrest] at h
      cases h
    | ok rest =>
      rw [hrest] at h
      exact ⟨c', rest, hafter, hrest, (Except.ok.inj h).symm⟩
  · cases h

/-- A run begins with the clock that is moved. -/
theorem exists_of_run (h : c.run moves = .ok clocks) : ∃ rest, clocks = c :: rest := by
  cases moves with
  | nil => exact ⟨[], (Except.ok.inj h).symm⟩
  | cons move moves =>
    obtain ⟨-, rest, -, -, rfl⟩ := run_cons_eq_ok h
    exact ⟨rest, rfl⟩

/-- A clock keeps its base. -/
theorem run_base (h : c.run moves = .ok clocks) : ∀ a ∈ clocks, a.base = c.base := by
  induction moves generalizing c clocks with
  | nil =>
    obtain rfl := Except.ok.inj h
    intro a ha
    rw [List.mem_singleton.1 ha]
  | cons move moves ih =>
    obtain ⟨c', rest, hafter, hrest, rfl⟩ := run_cons_eq_ok h
    intro a ha
    rcases List.mem_cons.1 ha with rfl | ha
    · rfl
    · exact (ih hrest a ha).trans (after_base hafter)

/-- **In a run the count never goes down just if no move overflows.** -/
theorem isChain_run_iff (h : c.run moves = .ok clocks) :
    clocks.IsChain (fun a b => a.elapsed ≤ b.elapsed) ↔
      ∀ p ∈ clocks.zip moves, ¬p.1.Overflows p.2 := by
  induction moves generalizing c clocks with
  | nil =>
    obtain rfl := Except.ok.inj h
    exact iff_of_true (.singleton c) fun p hp => nomatch hp
  | cons move moves ih =>
    obtain ⟨c', rest, hafter, hrest, rfl⟩ := run_cons_eq_ok h
    rw [List.zip_cons_cons, List.forall_mem_cons, ← ih hrest, ← elapsed_le_iff_not_overflows hafter]
    obtain ⟨later, rfl⟩ := exists_of_run hrest
    exact List.isChain_cons_cons

/-- **A clock goes back only when its count overflows.** Of a run of moves that can all be made:
what the clock shows is the base plus the time that is counted, and it shows this as long as 63 bits
count it and the calendar reaches that far. Of two times that it shows the later one is not earlier
just if the count is not lower by then. The count never goes down from one move to the next just if
no move overflows, and then no time that is shown is earlier than one before. -/
theorem never_goes_back (h : (start base).run moves = .ok clocks) :
    (∀ c ∈ clocks, ∀ m, c.now? = some m ↔
      c.passed.toNat < UInt64.size / 2 ∧ base.IsAfter c.elapsed.nanoseconds m) ∧
    (∀ a ∈ clocks, ∀ b ∈ clocks, ∀ m n, a.now? = some m → b.now? = some n →
      (m ≤ n ↔ a.elapsed ≤ b.elapsed)) ∧
    (clocks.IsChain (fun a b => a.elapsed ≤ b.elapsed) ↔
      ∀ p ∈ clocks.zip moves, ¬p.1.Overflows p.2) ∧
    ((∀ p ∈ clocks.zip moves, ¬p.1.Overflows p.2) →
      clocks.Pairwise fun a b => a.elapsed ≤ b.elapsed ∧
        ∀ m n, a.now? = some m → b.now? = some n → m ≤ n) := by
  have hbase := run_base h
  have hnow : ∀ a ∈ clocks, ∀ b ∈ clocks, ∀ m n, a.now? = some m → b.now? = some n →
      (m ≤ n ↔ a.elapsed ≤ b.elapsed) := fun a ha b hb m n hm hn =>
    now_le_iff ((hbase a ha).trans (hbase b hb).symm) hm hn
  refine ⟨?_, hnow, isChain_run_iff h, ?_⟩
  · intro c hc m
    rw [now?_eq_some_iff, hbase c hc]
    rfl
  · intro hfits
    have hrises := List.isChain_iff_pairwise.1 ((isChain_run_iff h).2 hfits)
    exact hrises.imp_of_mem fun ha hb hle =>
      ⟨hle, fun m n hm hn => (hnow _ ha _ hb m n hm hn).2 hle⟩

/-- The clock is moved forward by two seconds, and to a moment three seconds later. -/
theorem never_goes_back_of_moves :
    ∃ (moves : List Move) (a b c : Clock) (m n : Moment),
      (start standardBase).run moves = .ok [a, b, c] ∧ b.now? = some m ∧ c.now? = some n ∧
      (∀ p ∈ [a, b, c].zip moves, ¬p.1.Overflows p.2) ∧ b.elapsed ≤ c.elapsed ∧ m ≤ n ∧
      n.second = m.second + 3 := by
  let moves : List Move :=
    [.advance ⟨2000000000, by decide⟩, .advanceTo ⟨1704067205, 0, by decide⟩]
  let a := start standardBase
  let b : Clock := ⟨standardBase, 2000⟩
  let c : Clock := ⟨standardBase, 5000⟩
  have hrun : (start standardBase).run moves = .ok [a, b, c] := rfl
  have hb : b.now? = some ⟨1704067202, 0, by decide⟩ := by decide
  have hc : c.now? = some ⟨1704067205, 0, by decide⟩ := by decide
  have hfits : ∀ p ∈ [a, b, c].zip moves, ¬p.1.Overflows p.2 := by
    intro p hp
    rcases List.mem_cons.1 hp with rfl | hp
    · show ¬UInt64.size ≤ 0 + 2000
      decide
    · rw [List.mem_singleton.1 hp]
      exact not_false
  obtain ⟨-, -, -, hrises⟩ := never_goes_back hrun
  have hbc := List.rel_of_pairwise_cons (List.Pairwise.of_cons (hrises hfits)) List.mem_cons_self
  exact ⟨moves, a, b, c, _, _, hrun, hb, hc, hfits, hbc.1, hbc.2 _ _ hb hc, rfl⟩

/-- The count begins anew beyond 64 bits: a clock that shows two seconds after its base shows one
second after it when it has been moved forward. -/
theorem not_never_goes_back :
    ∃ (moves : List Move) (a b c : Clock) (m n : Moment),
      (start standardBase).run moves = .ok [a, b, c] ∧ b.now? = some m ∧ c.now? = some n ∧
      ¬b.elapsed ≤ c.elapsed ∧ ¬m ≤ n :=
  ⟨[.advance ⟨2000000000, by decide⟩, .advance ⟨18446744073709550616000000, by decide⟩],
    start standardBase, ⟨standardBase, 2000⟩, ⟨standardBase, 1000⟩,
    ⟨1704067202, 0, by decide⟩, ⟨1704067201, 0, by decide⟩, rfl, rfl, rfl, by decide, by decide⟩

end Clock
end Simulation
end CommitTimeline
