/-
# Where markers lie

Each table and timestamp have a path of their own (`Table.markerAt_inj`): no table
name has a slash in it. A listed path leads back to where it was found
(`Table.place_of_relative?`), and a marker of a timestamp that callers may name is
recognised by its file name (`Table.stem?_markerPath`) and lies at a path without
fault (`Table.fault?_markerPath`).
-/

import CommitTimeline.Storage.Table
import Mathlib.Data.List.Basic

namespace CommitTimeline
namespace Table

/-- Where the marker of a timestamp lies in storage. -/
def markerAt (t : Table) (timestamp : Timestamp) : String :=
  t.place (markerPath timestamp.text)

/-- A table to try things with. -/
def sample : Table := ⟨"t", by decide, by decide⟩

/-- The name of a table has no slash. -/
theorem slash_notMem_name (t : Table) : '/' ∉ t.name.toList := by
  intro h
  have := List.all_eq_true.1 t.name_chars '/' h
  exact absurd this (by decide)

/-- A placed path is the directory of the tables, the name of the table, and the path. -/
theorem toList_place (t : Table) (path : String) :
    (t.place path).toList = "tables/".toList ++ (t.name.toList ++ '/' :: path.toList) := by
  simp [place, root]

/-- What stands before the first slash of a text. -/
theorem takeWhile_slash {s r : List Char} (h : '/' ∉ s) :
    (s ++ '/' :: r).takeWhile (· ≠ '/') = s := by
  have hs : ∀ c ∈ s, decide (c ≠ '/') = true := by
    intro c hc
    rw [decide_eq_true_iff]
    rintro rfl
    exact h hc
  rw [List.takeWhile_append_of_pos hs, List.takeWhile_cons_of_neg (by decide), List.append_nil]

/-- **A path in storage tells the table and the path inside it.** -/
theorem place_inj {t u : Table} {p q : String} (h : t.place p = u.place q) : t = u ∧ p = q := by
  have h := congrArg String.toList h
  rw [toList_place, toList_place, List.append_cancel_left_eq] at h
  have hn := congrArg (List.takeWhile (· ≠ '/')) h
  rw [takeWhile_slash t.slash_notMem_name, takeWhile_slash u.slash_notMem_name] at hn
  rw [hn, List.append_cancel_left_eq, List.cons.injEq] at h
  obtain ⟨-, hp⟩ := h
  obtain ⟨n, _, _⟩ := t
  obtain ⟨m, _, _⟩ := u
  obtain rfl : n = m := String.toList_inj.1 hn
  exact ⟨rfl, String.toList_inj.1 hp⟩

/-- Markers of different timestamps have different paths. -/
theorem markerPath_inj {s r : String} (h : markerPath s = markerPath r) : s = r := by
  have h := congrArg String.toList h
  simp only [markerPath, String.toList_append, List.append_cancel_left_eq,
    List.append_cancel_right_eq] at h
  exact String.toList_inj.1 h

/-- **No two markers share a place.** -/
theorem markerAt_inj {t u : Table} {a b : Timestamp} (h : t.markerAt a = u.markerAt b) :
    t = u ∧ a = b := by
  obtain ⟨ht, hp⟩ := place_inj h
  obtain ⟨a⟩ := a
  obtain ⟨b⟩ := b
  exact ⟨ht, congrArg Timestamp.mk (markerPath_inj hp)⟩

/-- A placed path is found again relative to its table. -/
theorem relative?_place (t : Table) (path : String) : t.relative? (t.place path) = some path := by
  have hp : (t.place path).toList = (root t.name).toList ++ path.toList := by simp [place]
  simp only [relative?, hp]
  rw [if_pos (List.isPrefixOf_iff_prefix.2 (List.prefix_append _ _)), List.drop_left,
    String.ofList_toList]

/-- A listed path leads back to where it was found. -/
theorem place_of_relative? {t : Table} {p q : String} (h : t.relative? p = some q) :
    t.place q = p := by
  simp only [relative?] at h
  split at h
  · rename_i hp
    obtain ⟨r, hr⟩ := List.isPrefixOf_iff_prefix.1 hp
    rw [← hr, List.drop_left, Option.some.injEq] at h
    apply String.toList_inj.1
    rw [← h, ← hr]
    simp [place]
  · cases h

/-- The objects under the directory of a table's markers are those of the table. -/
theorem isPrefixOf_timelineDirectory (t : Table) (timestamp : Timestamp) :
    (t.place timelineDirectory).toList.isPrefixOf (t.markerAt timestamp).toList = true := by
  apply List.isPrefixOf_iff_prefix.2
  refine ⟨timestamp.text.toList ++ ".json".toList, ?_⟩
  simp [markerAt, place, markerPath]

/-- The stem of a name that ends in .json is what is before the ending. -/
theorem stem?_append (s : List Char) : stem? (s ++ ".json".toList) = some s := by
  simp only [stem?]
  rw [if_pos (List.isSuffixOf_iff_suffix.2 (List.suffix_append _ _)), List.length_append,
    Nat.add_sub_cancel, List.take_left]

/-- The last segment of a marker's path is its timestamp with the ending .json. -/
theorem fileName_markerPath {s : String} (h : '/' ∉ s.toList) :
    fileName (markerPath s).toList = s.toList ++ ".json".toList := by
  have hr : ((markerPath s).toList).reverse =
      (s.toList ++ ".json".toList).reverse ++ '/' :: ".timeline".toList.reverse := by
    simp [markerPath, timelineDirectory]
  have hd : '/' ∉ (s.toList ++ ".json".toList).reverse := by
    rw [List.mem_reverse, List.mem_append]
    rintro (hc | hc)
    · exact h hc
    · exact absurd hc (by decide)
  rw [fileName, hr, takeWhile_slash hd, List.reverse_reverse]

/-- **A marker is recognised by its file name.** -/
theorem stem?_markerPath {s : String} (h : '/' ∉ s.toList) :
    stem? (fileName (markerPath s).toList) = some s.toList := by
  rw [fileName_markerPath h, stem?_append]

/-- The directory of a timeline is a good path. -/
theorem fault?_timelineDirectory : fault? timelineDirectory = none := by
  decide +kernel

/-- A marker's path has two segments where its timestamp has no slash. -/
theorem splitOn_markerPath {s : String} (h : '/' ∉ s.toList) :
    (markerPath s).toList.splitOn '/' = [".timeline".toList, s.toList ++ ".json".toList] := by
  have hp : (markerPath s).toList = ".timeline".toList ++ '/' :: (s.toList ++ ".json".toList) := by
    simp [markerPath, timelineDirectory]
  have hd : '/' ∉ s.toList ++ ".json".toList := by
    rw [List.mem_append]
    rintro (hc | hc)
    · exact h hc
    · exact absurd hc (by decide)
  rw [hp, List.splitOn_append_cons_self_of_not_mem (by decide), List.splitOn_eq_singleton hd]

/-- The code points of letters and digits. -/
theorem toNat_of_isAlphanum {c : Char} (h : c.isAlphanum = true) :
    (65 ≤ c.toNat ∧ c.toNat ≤ 90) ∨ (97 ≤ c.toNat ∧ c.toNat ≤ 122) ∨
      (48 ≤ c.toNat ∧ c.toNat ≤ 57) := by
  change (decide (c.val ≥ 'A'.val ∧ c.val ≤ 'Z'.val) ||
    decide (c.val ≥ 'a'.val) && decide (c.val ≤ 'z'.val) ||
    decide (c.val ≥ '0'.val) && decide (c.val ≤ '9'.val)) = true at h
  simp only [Bool.or_eq_true, Bool.and_eq_true, decide_eq_true_eq, ge_iff_le,
    UInt32.le_iff_toNat_le, or_assoc] at h
  exact h

/-- Letters and digits are no control characters, and none that a path may not hold. -/
theorem sound_of_isAlphanum {c : Char} (h : c.isAlphanum = true) :
    c ≠ '/' ∧ c ≠ '\\' ∧ c ≠ '%' ∧ Text.isControl c = false := by
  have hv : ∀ d : Char, c.val = d.val ↔ c.toNat = d.toNat := fun d => UInt32.toNat_inj.symm
  have hrange := toNat_of_isAlphanum h
  simp only [ne_eq, Char.ext_iff, hv, Text.isControl]
  simp
  omega

/-- **A marker lies at a path without fault** if a caller may name its timestamp. -/
theorem fault?_markerPath {t : Timestamp} (h : t.IsValid) : fault? (markerPath t.text) = none := by
  have hs : ∀ c ∈ t.text.toList, c ≠ '/' ∧ c ≠ '\\' ∧ c ≠ '%' ∧ Text.isControl c = false :=
    fun c hc => sound_of_isAlphanum (List.all_eq_true.1 h.2 c hc)
  have hp : (markerPath t.text).toList =
      ".timeline/".toList ++ t.text.toList ++ ".json".toList := by
    simp [markerPath, timelineDirectory]
  have hdot : (".timeline/".toList ++ ".json".toList).all
      (fun c => c ≠ '\\' ∧ c ≠ '%' ∧ Text.isControl c = false) = true := by
    decide
  have hall : ∀ c ∈ (markerPath t.text).toList, c ≠ '\\' ∧ c ≠ '%' ∧ Text.isControl c = false := by
    intro c hc
    rw [hp, List.mem_append, List.mem_append] at hc
    rcases hc with (hc | hc) | hc
    · exact of_decide_eq_true (List.all_eq_true.1 hdot c (List.mem_append_left _ hc))
    · exact (hs c hc).2
    · exact of_decide_eq_true (List.all_eq_true.1 hdot c (List.mem_append_right _ hc))
  have hhead : (markerPath t.text).toList.head? = some '.' := by
    rw [hp]
    rfl
  have hclimbs : climbs (markerPath t.text).toList = false := by
    rw [climbs, splitOn_markerPath fun hc => (hs _ hc).1 rfl]
    have hlong : 2 < (t.text.toList ++ ".json".toList).length := by simp
    have hone : t.text.toList ++ ".json".toList ≠ ['.'] :=
      fun he => absurd (he ▸ hlong) (by decide)
    have htwo : t.text.toList ++ ".json".toList ≠ ['.', '.'] :=
      fun he => absurd (he ▸ hlong) (by decide)
    simp only [List.any_cons, List.any_nil, hone, htwo]
    decide
  have hback : (markerPath t.text).toList.contains '\\' = false := by
    rw [List.contains_eq_mem, decide_eq_false_iff_not]
    exact fun hc => (hall _ hc).1 rfl
  have hpercent : (markerPath t.text).toList.contains '%' = false := by
    rw [List.contains_eq_mem, decide_eq_false_iff_not]
    exact fun hc => (hall _ hc).2.1 rfl
  have hcontrol : (markerPath t.text).toList.any Text.isControl = false := by
    rw [List.any_eq_false]
    exact fun c hc => by simp [(hall c hc).2.2]
  simp only [fault?, hhead, hback, hpercent, hcontrol, hclimbs]
  decide

end Table
end CommitTimeline
