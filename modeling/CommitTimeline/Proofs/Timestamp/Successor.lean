/-
# The next timestamp

The successor of a timestamp is its text with a zero behind it, and no letter or digit comes
before the zero. So a timestamp that callers may name is after another one just if it is not
before the successor of that one (`Timestamp.lt_iff_successor_le`), and between a timestamp and its
successor there is none (`Timestamp.follows_immediately`).
-/

import CommitTimeline.Proofs.Timestamp.Next

namespace CommitTimeline

namespace Text

/-- A text that holds no character before `c` is after another one just if it is not before this one
with `c` behind it. -/
theorem lt_iff_not_lt_append {c : Char} {l m : List Char} (hm : ∀ d ∈ m, ¬d < c) :
    l < m ↔ ¬m < l ++ [c] := by
  induction l generalizing m with
  | nil =>
    cases m with
    | nil => exact iff_of_false (List.lt_irrefl []) fun h => h (List.nil_lt_cons c [])
    | cons d ds =>
      refine iff_of_true (List.nil_lt_cons d ds) fun h => ?_
      rcases List.cons_lt_cons_iff.1 h with hlt | ⟨-, hlt⟩
      · exact hm d List.mem_cons_self hlt
      · exact List.not_lt_nil ds hlt
  | cons a l ih =>
    cases m with
    | nil => exact iff_of_false (List.not_lt_nil _) fun h => h (List.nil_lt_cons a _)
    | cons d ds =>
      have hds := ih fun x hx => hm x (List.mem_cons_of_mem d hx)
      rw [List.cons_append, List.cons_lt_cons_iff, List.cons_lt_cons_iff]
      -- the texts differ in their first characters, or in what comes behind them
      by_cases heq : a = d
      · subst heq
        simp only [Char.lt_irrefl, true_and, false_or]
        exact hds
      · have hiff : a < d ↔ ¬d < a :=
          ⟨Char.lt_asymm, fun h =>
            Char.not_le.1 fun hle => heq (Char.le_antisymm (Char.not_lt.1 h) hle)⟩
        simp only [heq, Ne.symm heq, false_and, or_false]
        exact hiff

end Text

namespace Timestamp

variable {s : String} {t u : Timestamp}

/-- What is accepted is what callers may name. -/
theorem parse_eq_ok_iff : parse s = .ok t ↔ t.text = s ∧ t.IsValid := by
  constructor
  · intro h
    rw [parse] at h
    split at h
    · rename_i hs
      obtain rfl := Except.ok.inj h
      exact ofString_eq_ok_iff.1 hs
    · cases h
  · rintro ⟨rfl, h⟩
    exact parse_of_isValid h

/-- No letter and no digit comes before the zero. -/
theorem not_lt_zero_of_isAlphanum {c : Char} (h : c.isAlphanum = true) : ¬c < '0' := by
  have hrange := Table.toNat_of_isAlphanum h
  show ¬c.toNat < 48
  omega

/-- **Later than a timestamp is not earlier than its successor,** for all that callers may name. -/
theorem lt_iff_successor_le (hu : u.IsValid) : t < u ↔ t.successor ≤ u := by
  have hzero : ∀ c ∈ u.text.toList, ¬c < '0' := fun c hc =>
    not_lt_zero_of_isAlphanum (List.all_eq_true.1 hu.2 c hc)
  rw [← not_lt]
  show t.text < u.text ↔ ¬u.text < t.text ++ "0"
  rw [String.lt_iff, String.lt_iff, String.toList_append]
  exact Text.lt_iff_not_lt_append hzero

/-- **The successor is the next timestamp.** Where a timestamp is accepted from a caller, its
successor is accepted as well, and later. Of the others that are accepted, just those are later that
are not before the successor, and so none lies between the two. -/
theorem follows_immediately (h : parse s = .ok t) :
    parse t.successor.text = .ok t.successor ∧ t < t.successor ∧
      ∀ s' u, parse s' = .ok u → (t < u ↔ t.successor ≤ u) ∧ ¬(t < u ∧ u < t.successor) := by
  have ht := (parse_eq_ok_iff.1 h).2
  refine ⟨parse_of_isValid (isValid_successor ht), t.lt_successor, ?_⟩
  intro s' u hu
  have hiff : t < u ↔ t.successor ≤ u := lt_iff_successor_le (parse_eq_ok_iff.1 hu).2
  refine ⟨hiff, ?_⟩
  rintro ⟨htu, hus⟩
  exact not_le.2 hus (hiff.1 htu)

/-- A timestamp that goes on behind the text of another one is not before its successor, and neither
is one with a later first character. -/
theorem follows_immediately_of_names :
    ∃ t long other : Timestamp, parse "9z" = .ok t ∧ parse "9z0A" = .ok long ∧
      parse "Az" = .ok other ∧ parse "9z0" = .ok t.successor ∧ t.successor ≤ long ∧
      t.successor ≤ other := by
  have ht : parse "9z" = .ok ⟨"9z"⟩ := by rfl
  have hlong : parse "9z0A" = .ok ⟨"9z0A"⟩ := by rfl
  have hother : parse "Az" = .ok ⟨"Az"⟩ := by rfl
  obtain ⟨hsuccessor, -, hnext⟩ := follows_immediately ht
  exact ⟨_, _, _, ht, hlong, hother, hsuccessor, (hnext _ _ hlong).1.1 (by decide),
    (hnext _ _ hother).1.1 (by decide)⟩

end Timestamp
end CommitTimeline
