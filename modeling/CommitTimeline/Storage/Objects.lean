/-
# Objects in memory

`Objects` keeps contents and version under each path, in the order of the paths.
The first write to a path gives version 1, every further one the next version.
Two collections with the same object under every path are equal
(`Objects.ext_find?`).
-/

import CommitTimeline.Storage.Request
import CommitTimeline.Text.Numeral

namespace CommitTimeline
namespace Storage

/-- A stored object. Its version is a number without bound here; it is the one that a counter of
64 bits with a sign gives for fewer than 2^63 writes to a path. -/
structure Object where
  data : Bytes
  version : Nat
  deriving DecidableEq

namespace Object

/-- The token that names the version of an object. -/
def token (o : Object) : String :=
  String.ofList (Text.numeral o.version)

/-- A token names the version of an object if it is a numeral of it. -/
def isNamedBy (o : Object) (token : String) : Bool :=
  Text.integer? token.toList = some (o.version : Int)

/-- What is known of the object at a path. -/
def describe (path : String) (o : Object) : Meta :=
  ⟨path, o.data.length, o.token⟩

end Object

/-- Objects under paths, in the order of the paths. -/
structure Objects where
  entries : List (String × Object)
  sorted : entries.Pairwise fun a b => a.1 < b.1
  deriving DecidableEq

namespace Objects

/-- No objects. -/
def empty : Objects := ⟨[], .nil⟩

/-- The object at a path. -/
def find? (s : Objects) (path : String) : Option Object :=
  s.entries.lookup path

/-- Puts an object into a list sorted by path, in place of the one of its path. -/
def insertEntry (path : String) (o : Object) : List (String × Object) → List (String × Object)
  | [] => [(path, o)]
  | (p, q) :: rest =>
    if path < p then (path, o) :: (p, q) :: rest
    else if path = p then (path, o) :: rest
    else (p, q) :: insertEntry path o rest

/-- After an insertion there is nothing but the object and what was there. -/
theorem mem_insertEntry {path : String} {o : Object} {l : List (String × Object)}
    {e : String × Object} (h : e ∈ insertEntry path o l) : e = (path, o) ∨ e ∈ l := by
  induction l with
  | nil => simpa [insertEntry] using h
  | cons a rest ih =>
    obtain ⟨p, q⟩ := a
    simp only [insertEntry] at h
    split at h
    · simpa using h
    split at h
    · simp only [List.mem_cons] at h ⊢
      rcases h with h | h
      · exact .inl h
      · exact .inr (.inr h)
    · simp only [List.mem_cons] at h ⊢
      rcases h with h | h
      · exact .inr (.inl h)
      · rcases ih h with h | h
        · exact .inl h
        · exact .inr (.inr h)

/-- An insertion keeps the order of the paths. -/
theorem pairwise_insertEntry {path : String} {o : Object} {l : List (String × Object)}
    (h : l.Pairwise fun a b => a.1 < b.1) :
    (insertEntry path o l).Pairwise fun a b => a.1 < b.1 := by
  induction l with
  | nil => simp [insertEntry]
  | cons a rest ih =>
    obtain ⟨p, q⟩ := a
    rw [List.pairwise_cons] at h
    simp only [insertEntry]
    split
    · rename_i hlt
      rw [List.pairwise_cons, List.pairwise_cons]
      refine ⟨fun e he => ?_, h⟩
      rcases List.mem_cons.1 he with rfl | he
      · exact hlt
      · exact String.lt_trans hlt (h.1 e he)
    split
    · rename_i heq
      rw [List.pairwise_cons]
      exact ⟨fun e he => by simpa [heq] using h.1 e he, h.2⟩
    · rename_i hlt hne
      rw [List.pairwise_cons]
      refine ⟨fun e he => ?_, ih h.2⟩
      rcases mem_insertEntry he with rfl | he
      · rcases String.le_total path p with hle | hle
        · exact absurd (String.le_antisymm hle (String.not_lt.1 hlt)) hne
        · exact String.not_le.1 fun h => hne (String.le_antisymm h hle)
      · exact h.1 e he

/-- The collection with an object put at a path. -/
def insert (s : Objects) (path : String) (o : Object) : Objects :=
  ⟨insertEntry path o s.entries, pairwise_insertEntry s.sorted⟩

/-- The first entry answers for its own path. -/
theorem lookup_cons (p : String) (e : String × Object) (l : List (String × Object)) :
    (e :: l).lookup p = if p = e.1 then some e.2 else l.lookup p := by
  obtain ⟨q, x⟩ := e
  rw [List.lookup_cons]
  by_cases h : p = q
  · simp [h]
  · simp [h, beq_eq_false_iff_ne.2 h]

/-- An insertion answers for its own path, and for no other. -/
theorem lookup_insertEntry (path : String) (o : Object) (l : List (String × Object)) (p : String) :
    (insertEntry path o l).lookup p = if p = path then some o else l.lookup p := by
  induction l with
  | nil => simp only [insertEntry, lookup_cons]
  | cons a rest ih =>
    obtain ⟨q, x⟩ := a
    simp only [insertEntry]
    split
    · simp only [lookup_cons]
    split
    · rename_i heq
      subst heq
      by_cases h : p = path <;> simp [lookup_cons, h]
    · rename_i hne
      by_cases hq : p = q
      · subst hq
        simp [Ne.symm hne]
      · simp [lookup_cons, hq, ih]

/-- **A write shows:** after an insertion its path holds the object, and every
other path what it held before. -/
theorem find?_insert (s : Objects) (path : String) (o : Object) (p : String) :
    (s.insert path o).find? p = if p = path then some o else s.find? p :=
  lookup_insertEntry path o s.entries p

/-- Nothing is found where nothing is stored. -/
@[simp]
theorem find?_empty (p : String) : empty.find? p = none := rfl

/-- A path that comes before all others is not there. -/
theorem lookup_eq_none_of_lt {p : String} {l : List (String × Object)}
    (h : ∀ e ∈ l, p < e.1) : l.lookup p = none := by
  induction l with
  | nil => rfl
  | cons a rest ih =>
    have hlt : p < a.1 := h a (by simp)
    have hne : p ≠ a.1 := fun heq => String.lt_irrefl _ (heq ▸ hlt)
    rw [lookup_cons, if_neg hne]
    exact ih fun e he => h e (by simp [he])

/-- In the order of the paths, entries are told by what is found under each path. -/
theorem eq_of_lookup_eq {l m : List (String × Object)} (hl : l.Pairwise fun a b => a.1 < b.1)
    (hm : m.Pairwise fun a b => a.1 < b.1) (h : ∀ p, l.lookup p = m.lookup p) : l = m := by
  induction l generalizing m with
  | nil =>
    cases m with
    | nil => rfl
    | cons b m => simpa [lookup_cons] using h b.1
  | cons a l ih =>
    rw [List.pairwise_cons] at hl
    cases m with
    | nil => simpa [lookup_cons] using h a.1
    | cons b m =>
      rw [List.pairwise_cons] at hm
      have hkey : a.1 = b.1 := by
        rcases String.le_total a.1 b.1 with hle | hle
        · apply Decidable.byContradiction
          intro hne
          have hlt : a.1 < b.1 := String.not_le.1 fun h => hne (String.le_antisymm hle h)
          have := h a.1
          rw [lookup_eq_none_of_lt (l := b :: m)] at this
          · simp [lookup_cons] at this
          · intro e he
            rcases List.mem_cons.1 he with rfl | he
            · exact hlt
            · exact String.lt_trans hlt (hm.1 e he)
        · apply Decidable.byContradiction
          intro hne
          have hlt : b.1 < a.1 := String.not_le.1 fun h => hne (String.le_antisymm h hle)
          have := h b.1
          rw [lookup_eq_none_of_lt (l := a :: l)] at this
          · simp [lookup_cons] at this
          · intro e he
            rcases List.mem_cons.1 he with rfl | he
            · exact hlt
            · exact String.lt_trans hlt (hl.1 e he)
      have hval : a.2 = b.2 := by
        have := h a.1
        simpa [lookup_cons, hkey] using this
      have : l = m := by
        apply ih hl.2 hm.2
        intro p
        by_cases hp : p = a.1
        · subst hp
          rw [lookup_eq_none_of_lt hl.1, hkey, lookup_eq_none_of_lt hm.1]
        · have := h p
          rwa [lookup_cons, lookup_cons, if_neg hp, if_neg (hkey ▸ hp)] at this
      rw [this, Prod.ext hkey hval]

/-- **Only the objects count:** collections with the same object under every path
are equal. -/
theorem ext_find? {s t : Objects} (h : ∀ p, s.find? p = t.find? p) : s = t := by
  obtain ⟨l, hl⟩ := s
  obtain ⟨m, hm⟩ := t
  have : l = m := eq_of_lookup_eq hl hm h
  subst this
  rfl

/-- The object at a path is what a write under a condition expects there. -/
def allows (condition : Precondition) (current : Option Object) : Bool :=
  match condition, current with
  | .absent, some _ => false
  | .absent, none => true
  | .version token, some o => o.isNamedBy token
  | .version _, none => false
  | .anything, _ => true

/-- Writes an object if the condition holds. -/
def put (s : Objects) (path : String) (data : Bytes) (condition : Precondition) :
    Written × Objects :=
  let current := s.find? path
  if allows condition current then
    let o : Object := ⟨data, (current.map (·.version)).getD 0 + 1⟩
    (.stored o.token, s.insert path o)
  else (.conflict ((current.map (·.token)).getD "0"), s)

/-- What is known of the objects whose paths start with a text. -/
def list (s : Objects) (start : String) : List Meta :=
  (s.entries.filter fun e => start.toList.isPrefixOf e.1.toList).map fun (p, o) => o.describe p

/-- Does what a request asks for. -/
def answer (s : Objects) : (r : Request) → r.Answer × Objects
  | .list start => (.ok (s.list start), s)
  | .get path =>
    match s.find? path with
    | some o => (.ok o.data, s)
    | none => (.error (.missing path), s)
  | .head path => (.ok ((s.find? path).map (·.describe path)), s)
  | .put path data condition =>
    let (w, s) := s.put path data condition
    (.ok w, s)

end Objects
end Storage
end CommitTimeline
