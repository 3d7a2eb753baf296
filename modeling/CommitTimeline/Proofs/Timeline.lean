/-
# Entries of a timeline

What is in a timeline after it was made of some entries or one was put into it, and
what its searches find (`Timeline.exists_of_first?`, `Timeline.exists_of_last?`). In a
strict timeline no two entries share a timestamp (`Timeline.IsStrict`). It is the only
timeline of its entries, in whatever order they are given (`Timeline.ofEntries_eq`), and
it stays strict when an entry is put into it, which comes in place of the one of its
timestamp (`Timeline.upsert_of_mem`) or behind all the earlier ones
(`Timeline.upsert_of_lt`).
-/

import CommitTimeline.Compaction

namespace CommitTimeline

namespace Timestamp

/-- No timestamp is before itself. -/
theorem lt_irrefl (a : Timestamp) : ¬a < a :=
  String.lt_irrefl a.text

/-- What is before something is before everything later. -/
theorem lt_trans {a b c : Timestamp} (h : a < b) (h' : b < c) : a < c :=
  String.lt_trans h h'

/-- What is not after something is before everything later. -/
theorem lt_of_le_of_lt {a b c : Timestamp} (h : a ≤ b) (h' : b < c) : a < c := by
  apply not_le.1
  intro hca
  exact not_le.2 h' (le_trans hca h)

/-- A timestamp that is not after another one is before it, or is the same. -/
theorem lt_of_le_of_ne {a b : Timestamp} (h : a ≤ b) (hne : a ≠ b) : a < b := by
  apply not_le.1
  intro hba
  exact hne (le_antisymm h hba)

/-- A timestamp before another one is not the same. -/
theorem ne_of_lt {a b : Timestamp} (h : a < b) : a ≠ b := by
  rintro rfl
  exact lt_irrefl a h

/-- Of two timestamps one is before the other, or they are the same. -/
theorem lt_trichotomy (a b : Timestamp) : a < b ∨ a = b ∨ b < a := by
  by_cases hab : a < b
  · exact .inl hab
  by_cases hba : b < a
  · exact .inr (.inr hba)
  · exact .inr (.inl (le_antisymm (not_lt.1 hba) (not_lt.1 hab)))

end Timestamp

/-- A compaction that is requested or in flight. -/
def Marker.IsOutstanding (m : Marker) : Prop :=
  m.instant.action = .compaction ∧ m.instant.state ≠ .completed

instance (m : Marker) : Decidable m.IsOutstanding :=
  inferInstanceAs (Decidable (_ ∧ _))

namespace Timeline

/-- Sorting neither loses nor adds an entry. -/
theorem mem_sort {e : Entry} {l : List Entry} : e ∈ sort l ↔ e ∈ l := by
  induction l with
  | nil => rfl
  | cons x l ih =>
    rw [sort, List.foldr_cons, mem_place, List.mem_cons]
    exact or_congr_right ih

/-- A timeline of entries has these entries. -/
theorem mem_ofEntries {e : Entry} {l : List Entry} : e ∈ (ofEntries l).entries ↔ e ∈ l :=
  mem_sort

/-- An entry that is put is there. -/
theorem mem_put_self (e : Entry) (l : List Entry) : e ∈ put e l := by
  induction l with
  | nil => exact List.mem_cons_self
  | cons x l ih =>
    rw [put]
    split
    · exact List.mem_cons_self
    split
    · exact List.mem_cons_self
    · exact List.mem_cons_of_mem x ih

/-- What was put into a timeline is in it. -/
theorem mem_upsert_self (t : Timeline) (e : Entry) : e ∈ (t.upsert e).entries :=
  mem_put_self e t.entries

/-- In a timeline there is nothing but what was put last and what was there before. -/
theorem mem_of_mem_upsert {t : Timeline} {e x : Entry} (h : x ∈ (t.upsert e).entries) :
    x = e ∨ x ∈ t.entries :=
  mem_put h

/-- What speaks for a timestamp is an entry of it. -/
theorem mem_of_find? {t : Timeline} {timestamp : Timestamp} {e : Entry}
    (h : t.find? timestamp = some e) : e ∈ t.entries ∧ e.timestamp = timestamp := by
  have hm := List.mem_of_find?_eq_some h
  have ht := List.find?_some h
  exact ⟨List.mem_reverse.1 hm, of_decide_eq_true ht⟩

/-- Wherever there is an entry, one is found for its timestamp. -/
theorem exists_find? {t : Timeline} {e : Entry} (h : e ∈ t.entries) :
    ∃ e', t.find? e.timestamp = some e' := by
  rw [← Option.isSome_iff_exists, find?, List.find?_isSome]
  exact ⟨e, List.mem_reverse.2 h, decide_eq_true rfl⟩

/-- Where an entry has a timestamp, one of its entries gives the plan. -/
theorem exists_planAt {t : Timeline} {e : Entry} (h : e ∈ t.entries) :
    ∃ e' ∈ t.entries, e'.timestamp = e.timestamp ∧
      t.planAt e.timestamp = e'.details.plan?.getD .empty := by
  obtain ⟨e', he'⟩ := exists_find? h
  obtain ⟨hm, ht⟩ := mem_of_find? he'
  refine ⟨e', hm, ht, ?_⟩
  rw [planAt, details?, he']
  rfl

/-- The pending compaction is an entry, and it is requested or in flight. -/
theorem exists_of_pendingCompaction? {t : Timeline} {i : Instant}
    (h : t.pendingCompaction? = some i) :
    ∃ e ∈ t.entries, e.instant = i ∧ i.action = .compaction ∧
      (i.state = .requested ∨ i.state = .inflight) := by
  have hm := List.mem_of_find?_eq_some h
  have hs := List.find?_some h
  obtain ⟨e, he, rfl⟩ := List.mem_map.1 hm
  refine ⟨e, he, rfl, ?_⟩
  simpa [Filter.selects, Filter.pendingCompaction, Filter.withStates, Filter.withActions,
    Filter.all] using hs

/-- The search finds none if no compaction is outstanding. -/
theorem pendingCompaction?_eq_none {t : Timeline} (h : ∀ e ∈ t.entries, ¬e.IsOutstanding) :
    t.pendingCompaction? = none := by
  rw [Option.eq_none_iff_forall_ne_some]
  intro i hi
  obtain ⟨e, he, rfl, ha, hstate⟩ := exists_of_pendingCompaction? hi
  refine h e he ⟨ha, ?_⟩
  rcases hstate with hstate | hstate <;> rw [hstate] <;> decide

/-- No compaction is outstanding if the search finds none. -/
theorem not_isOutstanding_of_pendingCompaction? {t : Timeline} (h : t.pendingCompaction? = none)
    {e : Entry} (he : e ∈ t.entries) : ¬e.IsOutstanding := by
  rintro ⟨ha, hne⟩
  have hs := List.find?_eq_none.1 h e.instant (List.mem_map_of_mem he)
  cases hst : e.instant.state with
  | completed => exact hne hst
  | _ => simp [Filter.selects, Filter.pendingCompaction, Filter.withStates, Filter.withActions,
      Filter.all, ha, hst] at hs

/-- The last instant of all is the last one. -/
theorem last?_all (t : Timeline) : t.last? .all = t.instants.getLast? := by
  have hall : t.instants.reverse.filter Filter.all.selects = t.instants.reverse :=
    List.filter_eq_self.2 fun _ _ => rfl
  rw [last?, ← List.head?_filter, hall, List.head?_reverse]

/-- A timeline without a last instant has no entries. -/
theorem entries_eq_nil {t : Timeline} (h : t.last? .all = none) : t.entries = [] := by
  rw [last?_all, List.getLast?_eq_none_iff, instants, List.map_eq_nil_iff] at h
  exact h

/-- What is found first in a list that is in order is the first of all that are looked for. -/
theorem exists_of_find? {R : Entry → Entry → Prop} {l : List Entry} {p : Instant → Bool}
    {i : Instant} (hl : l.Pairwise R) (hrefl : ∀ e, R e e)
    (h : (l.map (·.instant)).find? p = some i) :
    ∃ e ∈ l, e.instant = i ∧ p i = true ∧ ∀ x ∈ l, p x.instant = true → R e x := by
  induction l with
  | nil => cases h
  | cons y l ih =>
    rw [List.pairwise_cons] at hl
    rw [List.map_cons, List.find?_cons] at h
    split at h
    · rename_i hp
      obtain rfl := Option.some.inj h
      refine ⟨y, List.mem_cons_self, rfl, hp, ?_⟩
      intro x hx _
      rcases List.mem_cons.1 hx with rfl | hx
      · exact hrefl x
      · exact hl.1 x hx
    · rename_i hp
      obtain ⟨e, he, rfl, hpe, hfirst⟩ := ih hl.2 h
      refine ⟨e, List.mem_cons_of_mem y he, rfl, hpe, ?_⟩
      intro x hx hpx
      rcases List.mem_cons.1 hx with rfl | hx
      · rw [hp] at hpx
        cases hpx
      · exact hfirst x hx hpx

/-- What a filter finds first is the earliest instant that it selects. -/
theorem exists_of_first? {t : Timeline} {f : Filter} {i : Instant} (h : t.first? f = some i) :
    ∃ e ∈ t.entries, e.instant = i ∧ f.selects i = true ∧
      ∀ x ∈ t.entries, f.selects x.instant = true → e.timestamp ≤ x.timestamp :=
  exists_of_find? t.sorted (fun _ => Timestamp.le_refl _) h

/-- What a filter finds last is the latest instant that it selects. -/
theorem exists_of_last? {t : Timeline} {f : Filter} {i : Instant} (h : t.last? f = some i) :
    ∃ e ∈ t.entries, e.instant = i ∧ f.selects i = true ∧
      ∀ x ∈ t.entries, f.selects x.instant = true → x.timestamp ≤ e.timestamp := by
  rw [last?, instants, ← List.map_reverse] at h
  obtain ⟨e, he, hi, hs, hlast⟩ :=
    exists_of_find? (List.pairwise_reverse.2 t.sorted) (fun _ => Timestamp.le_refl _) h
  exact ⟨e, List.mem_reverse.1 he, hi, hs, fun x hx => hlast x (List.mem_reverse.2 hx)⟩

/-- Nothing comes after the last entry. -/
theorem le_of_last?_all {t : Timeline} {last : Instant} (h : t.last? .all = some last)
    {e : Entry} (he : e ∈ t.entries) : e.timestamp ≤ last.timestamp := by
  obtain ⟨x, -, rfl, -, hlast⟩ := exists_of_last? h
  exact hlast e he rfl

section Strict

variable {t : Timeline} {e x y : Entry} {l ys : List Entry}

/-- No two entries share a timestamp. -/
def IsStrict (t : Timeline) : Prop :=
  t.entries.Pairwise fun a b => a.timestamp < b.timestamp

/-- Nothing is out of order in the empty timeline. -/
theorem isStrict_empty : empty.IsStrict :=
  .nil

/-- A strict timeline has no entry twice. -/
theorem IsStrict.nodup (h : t.IsStrict) : t.entries.Nodup := by
  refine List.Pairwise.imp ?_ h
  rintro a b hlt rfl
  exact Timestamp.lt_irrefl _ hlt

/-- Where timestamps increase, a timestamp tells its entry. -/
theorem eq_of_timestamp_eq (h : l.Pairwise fun a b => a.timestamp < b.timestamp) (hx : x ∈ l)
    (hy : y ∈ l) (he : x.timestamp = y.timestamp) : x = y := by
  induction l with
  | nil => cases hx
  | cons z l ih =>
    rw [List.pairwise_cons] at h
    rcases List.mem_cons.1 hx with hxz | hxl <;> rcases List.mem_cons.1 hy with hyz | hyl
    · rw [hxz, hyz]
    · exact absurd (hxz ▸ he) (Timestamp.ne_of_lt (h.1 y hyl))
    · exact absurd (hyz ▸ he.symm) (Timestamp.ne_of_lt (h.1 x hxl))
    · exact ih h.2 hxl hyl

/-- A placed entry comes to the others. -/
theorem perm_place (e : Entry) (l : List Entry) : (place e l).Perm (e :: l) := by
  induction l with
  | nil => exact .refl _
  | cons x l ih =>
    rw [place]
    split
    · exact (ih.cons x).trans (.swap e x l)
    · exact .refl _

/-- Sorted entries are the same ones in another order. -/
theorem perm_sort (l : List Entry) : (sort l).Perm l := by
  induction l with
  | nil => exact .refl _
  | cons e l ih => exact (perm_place e (sort l)).trans (ih.cons e)

/-- **A strict timeline is the only one of its entries,** in whatever order they come. -/
theorem ofEntries_eq (ht : t.IsStrict) (hl : l.Perm t.entries) : ofEntries l = t := by
  obtain ⟨entries, sorted⟩ := t
  have hperm : (sort l).Perm entries := (perm_sort l).trans hl
  have hentries : sort l = entries := by
    refine List.Perm.eq_of_pairwise ?_ (sorted_sort l) sorted hperm
    intro a b ha hb hab hba
    exact eq_of_timestamp_eq ht (hperm.mem_iff.1 ha) hb (Timestamp.le_antisymm hab hba)
  subst hentries
  rfl

/-- A strict timeline is known by what is in it. -/
theorem IsStrict.ext {u : Timeline} (ht : t.IsStrict) (hu : u.IsStrict)
    (h : ∀ e, e ∈ u.entries ↔ e ∈ t.entries) : u = t := by
  rw [← ofEntries_eq hu (.refl _)]
  exact ofEntries_eq ht ((List.perm_ext_iff_of_nodup hu.nodup ht.nodup).2 h)

/-- A timeline of entries that share no timestamp is strict. -/
theorem isStrict_ofEntries (h : (l.map (·.timestamp)).Nodup) : (ofEntries l).IsStrict := by
  have hne : (sort l).Pairwise fun a b => a.timestamp ≠ b.timestamp :=
    List.pairwise_map.1 (((perm_sort l).map _).nodup_iff.2 h)
  exact (sorted_sort l).imp₂ (fun _ _ => Timestamp.lt_of_le_of_ne) hne

/-- An entry that is earlier than all is put in front. -/
theorem put_cons_of_lt (h : e.timestamp < y.timestamp) : put e (y :: ys) = e :: y :: ys := by
  rw [put, if_pos h]

/-- An entry of the first timestamp is put in place of the first one. -/
theorem put_cons_of_eq (h : e.timestamp = y.timestamp)
    (hys : ∀ z ∈ ys, y.timestamp < z.timestamp) : put e (y :: ys) = e :: ys := by
  have hlt : ¬e.timestamp < y.timestamp := by
    rw [h]
    exact Timestamp.lt_irrefl _
  rw [put, if_neg hlt, if_pos]
  refine ⟨h, ?_⟩
  intro z hz
  rw [h]
  exact (Timestamp.ne_of_lt (hys z (List.mem_of_mem_head? hz))).symm

/-- An entry that is later than the first one is put among the others. -/
theorem put_cons_of_gt (h : y.timestamp < e.timestamp) : put e (y :: ys) = y :: put e ys := by
  have hlt : ¬e.timestamp < y.timestamp := Timestamp.not_lt.2 (Timestamp.le_of_lt h)
  rw [put, if_neg hlt, if_neg fun hc => Timestamp.ne_of_lt h hc.1.symm]

/-- Where timestamps increase, an entry that is put replaces that of its timestamp, and no other
one. -/
theorem mem_put_iff (h : l.Pairwise fun a b => a.timestamp < b.timestamp) :
    x ∈ put e l ↔ x = e ∨ (x ∈ l ∧ x.timestamp ≠ e.timestamp) := by
  induction l with
  | nil => simp [put]
  | cons y ys ih =>
    rw [List.pairwise_cons] at h
    rcases Timestamp.lt_trichotomy e.timestamp y.timestamp with hlt | heq | hgt
    · have hne : ∀ z ∈ y :: ys, z.timestamp ≠ e.timestamp := by
        intro z hz
        rcases List.mem_cons.1 hz with rfl | hz
        · exact (Timestamp.ne_of_lt hlt).symm
        · exact (Timestamp.ne_of_lt (Timestamp.lt_trans hlt (h.1 z hz))).symm
      rw [put_cons_of_lt hlt, List.mem_cons]
      exact or_congr_right ⟨fun hx => ⟨hx, hne x hx⟩, fun hx => hx.1⟩
    · rw [put_cons_of_eq heq h.1, List.mem_cons, List.mem_cons, heq]
      refine or_congr_right ⟨fun hx => ⟨.inr hx, ?_⟩, ?_⟩
      · exact (Timestamp.ne_of_lt (h.1 x hx)).symm
      · rintro ⟨rfl | hx, hne⟩
        · exact absurd rfl hne
        · exact hx
    · rw [put_cons_of_gt hgt, List.mem_cons, List.mem_cons, ih h.2]
      constructor
      · rintro (rfl | rfl | ⟨hx, hne⟩)
        · exact .inr ⟨.inl rfl, Timestamp.ne_of_lt hgt⟩
        · exact .inl rfl
        · exact .inr ⟨.inr hx, hne⟩
      · rintro (rfl | ⟨rfl | hx, hne⟩)
        · exact .inr (.inl rfl)
        · exact .inl rfl
        · exact .inr (.inr ⟨hx, hne⟩)

/-- Timestamps increase after an entry is put if they did before. -/
theorem strict_put (h : l.Pairwise fun a b => a.timestamp < b.timestamp) :
    (put e l).Pairwise fun a b => a.timestamp < b.timestamp := by
  induction l with
  | nil => simp [put]
  | cons y ys ih =>
    rw [List.pairwise_cons] at h
    rcases Timestamp.lt_trichotomy e.timestamp y.timestamp with hlt | heq | hgt
    · rw [put_cons_of_lt hlt, List.pairwise_cons, List.pairwise_cons]
      refine ⟨?_, h⟩
      intro z hz
      rcases List.mem_cons.1 hz with rfl | hz
      · exact hlt
      · exact Timestamp.lt_trans hlt (h.1 z hz)
    · rw [put_cons_of_eq heq h.1, List.pairwise_cons, heq]
      exact h
    · rw [put_cons_of_gt hgt, List.pairwise_cons]
      refine ⟨?_, ih h.2⟩
      intro z hz
      rcases mem_put hz with rfl | hz
      · exact hgt
      · exact h.1 z hz

/-- A strict timeline stays strict, whatever is put into it. -/
theorem IsStrict.upsert (h : t.IsStrict) (e : Entry) : (t.upsert e).IsStrict :=
  strict_put h

/-- An entry that is put into a strict timeline replaces that of its timestamp, and no other one. -/
theorem mem_upsert_iff (h : t.IsStrict) :
    x ∈ (t.upsert e).entries ↔ x = e ∨ (x ∈ t.entries ∧ x.timestamp ≠ e.timestamp) :=
  mem_put_iff h

/-- An entry that is there already is left in its place. -/
theorem upsert_eq_self (h : t.IsStrict) (he : e ∈ t.entries) : t.upsert e = t := by
  refine IsStrict.ext h (h.upsert e) ?_
  intro x
  rw [mem_upsert_iff h]
  constructor
  · rintro (rfl | hx)
    · exact he
    · exact hx.1
  · intro hx
    by_cases ht : x.timestamp = e.timestamp
    · exact .inl (eq_of_timestamp_eq h hx he ht)
    · exact .inr ⟨hx, ht⟩

/-- Of two entries of one timestamp the later one stays. -/
theorem upsert_upsert (h : t.IsStrict) (ht : x.timestamp = e.timestamp) :
    (t.upsert x).upsert e = t.upsert e := by
  refine IsStrict.ext (h.upsert e) ((h.upsert x).upsert e) ?_
  intro y
  rw [mem_upsert_iff (h.upsert x), mem_upsert_iff h, mem_upsert_iff h, ht]
  refine or_congr_right ⟨?_, fun hy => ⟨.inr hy, hy.2⟩⟩
  rintro ⟨rfl | hy, hne⟩
  · exact absurd ht hne
  · exact hy

/-- **A later entry comes behind all others.** -/
theorem upsert_of_lt (h : ∀ x ∈ t.entries, x.timestamp < e.timestamp) :
    (t.upsert e).entries = t.entries ++ [e] := by
  obtain ⟨entries, sorted⟩ := t
  show put e entries = entries ++ [e]
  change ∀ x ∈ entries, x.timestamp < e.timestamp at h
  clear sorted
  induction entries with
  | nil => rfl
  | cons y ys ih =>
    rw [put_cons_of_gt (h y List.mem_cons_self), ih fun x hx => h x (List.mem_cons_of_mem y hx)]
    rfl

/-- **An entry comes in place of the one of its timestamp.** -/
theorem upsert_of_mem (h : t.IsStrict) (hx : x ∈ t.entries) (ht : x.timestamp = e.timestamp) :
    (t.upsert e).entries = t.entries.map fun y => if y = x then e else y := by
  obtain ⟨entries, sorted⟩ := t
  show put e entries = entries.map _
  change x ∈ entries at hx
  change entries.Pairwise _ at h
  clear sorted
  induction entries with
  | nil => cases hx
  | cons y ys ih =>
    rw [List.pairwise_cons] at h
    rcases List.mem_cons.1 hx with rfl | hx
    · rw [put_cons_of_eq ht.symm h.1, List.map_cons, if_pos rfl, List.map_congr_left (g := id)]
      · rw [List.map_id]
      · intro z hz
        refine if_neg ?_
        rintro rfl
        exact Timestamp.lt_irrefl _ (h.1 z hz)
    · have hlt : y.timestamp < e.timestamp := ht ▸ h.1 x hx
      have hne : y ≠ x := by
        rintro rfl
        exact Timestamp.lt_irrefl _ (h.1 y hx)
      rw [put_cons_of_gt hlt, ih hx h.2, List.map_cons, if_neg hne]

/-- What is selected of a timeline in which an entry was replaced by one that is selected
as well, or neither of them is. -/
theorem filter_upsert {p : Entry → Bool} (h : t.IsStrict) (hx : x ∈ t.entries)
    (ht : x.timestamp = e.timestamp) (hp : p e = p x) :
    (t.upsert e).entries.filter p = (t.entries.filter p).map fun y => if y = x then e else y := by
  have hcongr : ∀ y ∈ t.entries, (p ∘ fun y => if y = x then e else y) y = p y := by
    intro y _
    show p (if y = x then e else y) = p y
    split
    · rename_i hy
      rw [hy, hp]
    · rfl
  rw [upsert_of_mem h hx ht, List.filter_map, List.filter_congr hcongr]

/-- An entry that none is later than comes last. -/
theorem exists_init (h : t.IsStrict) (he : e ∈ t.entries)
    (hlast : ∀ x ∈ t.entries, x.timestamp ≤ e.timestamp) : ∃ init, t.entries = init ++ [e] := by
  obtain ⟨init, rest, hl⟩ := List.append_of_mem he
  cases rest with
  | nil => exact ⟨init, hl⟩
  | cons y rest =>
    have hy : y ∈ t.entries := by simp [hl]
    unfold IsStrict at h
    rw [hl, List.pairwise_append, List.pairwise_cons] at h
    exact absurd (h.2.1.1 y List.mem_cons_self) (Timestamp.not_lt.2 (hlast y hy))

/-- An entry comes in place of the last one. -/
theorem upsert_of_last {init : List Entry} (h : t.IsStrict) (hl : t.entries = init ++ [x])
    (ht : x.timestamp = e.timestamp) : (t.upsert e).entries = init ++ [e] := by
  have hx : x ∈ t.entries := by simp [hl]
  have hinit : ∀ y ∈ init, (if y = x then e else y) = id y := by
    intro y hy
    refine if_neg ?_
    rintro rfl
    have hn := h.nodup
    rw [hl, List.nodup_append] at hn
    exact hn.2.2 y hy y List.mem_cons_self rfl
  rw [upsert_of_mem h hx ht, hl, List.map_append, List.map_congr_left hinit, List.map_id,
    List.map_singleton, if_pos rfl]

/-- The entry of a timestamp speaks for it. -/
theorem find?_of_mem (h : t.IsStrict) (he : e ∈ t.entries) : t.find? e.timestamp = some e := by
  obtain ⟨x, hx⟩ := exists_find? he
  obtain ⟨hm, ht⟩ := mem_of_find? hx
  rw [hx, eq_of_timestamp_eq h hm he ht]

end Strict

end Timeline
end CommitTimeline
