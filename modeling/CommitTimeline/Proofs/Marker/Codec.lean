/-
# What the bytes of a marker say

A marker that can be read at all comes back from its bytes, and from any other spelling of
its fields: an object may hold them in any order among others that are not known
(`Marker.IsSpelledBy`), and an array may hold them in theirs. A marker that was decoded,
from whatever bytes, can be encoded again, and its bytes are then the ones that it keeps
(`Marker.codec`).
-/

import CommitTimeline.Proofs.Marker.RoundTrip

namespace CommitTimeline

/-- What is looked up is the first of the members that have this name. -/
theorem Json.lookup_eq (f : String) (members : List (String × Json)) :
    members.lookup f = (members.filter fun x => x.1 = f).head?.map (·.2) := by
  induction members with
  | nil => rfl
  | cons x members ih =>
    obtain ⟨name, j⟩ := x
    rw [List.lookup_cons]
    by_cases h : name = f
    · simp [h]
    · rw [List.filter_cons_of_neg (by simpa using h), ← ih, beq_eq_false_iff_ne.2 (Ne.symm h)]

namespace Marker

variable {m : Marker}

/-- The fields that a stored marker may have. -/
def fieldNames : List String :=
  ["timestamp", "action", "state", "details", "requested_at"]

/-- The members of a stored marker. -/
def members (m : Marker) : List (String × Json) :=
  [("timestamp", m.instant.timestamp.toJson), ("action", m.instant.action.toJson),
    ("state", m.instant.state.toJson), ("details", m.details.toJson)] ++
  match m.requestedAt with
  | some moment => [("requested_at", moment.toJson)]
  | none => []

/-- A marker is written as the object of its members. -/
theorem toJson_eq (m : Marker) : m.toJson = .object m.members :=
  rfl

/-- The members have the fields of a marker, each the ones that are stored of it; they come in
any order, and there may be others. -/
def IsSpelledBy (m : Marker) (l : List (String × Json)) : Prop :=
  ∀ f ∈ fieldNames, (l.filter fun x => x.1 = f) = m.members.filter fun x => x.1 = f

/-- Only what is found under the names of the fields counts. -/
theorem ofJson?_congr {j k : Json} {l l' : List (String × Json)}
    (hj : j.record? fieldNames = some l) (hk : k.record? fieldNames = some l')
    (h : ∀ f ∈ fieldNames, l.lookup f = l'.lookup f) : ofJson? j = ofJson? k := by
  have hj' : j.record? ["timestamp", "action", "state", "details", "requested_at"] = some l := hj
  have hk' : k.record? ["timestamp", "action", "state", "details", "requested_at"] = some l' := hk
  have htimestamp := h "timestamp" (by decide)
  have haction := h "action" (by decide)
  have hstate := h "state" (by decide)
  have hdetails := h "details" (by decide)
  have hrequested := h "requested_at" (by decide)
  simp only [ofJson?, hj', hk', Option.bind_eq_bind, Option.bind_some, htimestamp, haction, hstate,
    hdetails, hrequested]

/-- No field is stored twice. -/
theorem record?_members (m : Marker) :
    (Json.object m.members).record? fieldNames = some m.members := by
  obtain ⟨⟨timestamp, action, state⟩, details, requestedAt⟩ := m
  cases requestedAt <;> rfl

/-- **The order of the fields does not matter,** and unknown ones do no harm. -/
theorem ofJson?_of_isSpelledBy {l : List (String × Json)} (hm : m.IsReadable)
    (h : m.IsSpelledBy l) : ofJson? (.object l) = some m := by
  have hrecord : (Json.object l).record? fieldNames = some l := by
    have hmembers := m.record?_members
    simp only [Json.record?] at hmembers ⊢
    split at hmembers
    · rename_i hall
      refine if_pos ?_
      rw [List.all_eq_true] at hall ⊢
      intro f hf
      rw [h f hf]
      exact hall f hf
    · cases hmembers
  have hlookup : ∀ f ∈ fieldNames, l.lookup f = m.members.lookup f := by
    intro f hf
    rw [Json.lookup_eq, Json.lookup_eq, h f hf]
  rw [ofJson?_congr hrecord m.record?_members hlookup, ← toJson_eq, ofJson?_toJson, if_pos hm]

/-- **A marker may be stored as an array of its fields,** in their order. -/
theorem ofJson?_items (hm : m.IsReadable) :
    ofJson? (.array (m.members.map (·.2))) = some m := by
  have hrecord : (Json.array (m.members.map (·.2))).record? fieldNames = some m.members := by
    obtain ⟨⟨timestamp, action, state⟩, details, requestedAt⟩ := m
    cases requestedAt <;> rfl
  rw [ofJson?_congr hrecord m.record?_members fun _ _ => rfl, ← toJson_eq, ofJson?_toJson,
    if_pos hm]

/-- Every member of a marker may be written. -/
theorem plain_of_mem (m : Marker) {x : String × Json} (hx : x ∈ m.members) : x.2.Plain := by
  have hplain := m.plain_toJson
  rw [toJson_eq] at hplain
  cases hplain with
  | object h => exact h x hx

/-- **Encoding and decoding are inverse to each other:** a marker that can be read comes back from
its bytes and from every other spelling of its fields; and what was decoded, from whatever bytes,
has bytes of its own, which it keeps. -/
theorem codec :
    (∀ m : Marker, m.IsReadable → decode? m.encode = some m) ∧
      (∀ (m : Marker) l, m.IsReadable → m.IsSpelledBy l → (Json.object l).Plain →
        decode? (Text.encode (Json.object l).chars) = some m) ∧
      (∀ m : Marker, m.IsReadable →
        decode? (Text.encode (Json.array (m.members.map (·.2))).chars) = some m) ∧
      ∀ bs m, decode? bs = some m → decode? m.encode = some m ∧
        ∀ m', decode? m.encode = some m' → m'.encode = m.encode := by
  have hdecode : ∀ m : Marker, m.IsReadable → decode? m.encode = some m := by
    intro m hm
    rw [decode?_encode, if_pos hm]
  refine ⟨hdecode, ?_, ?_, ?_⟩
  · intro m l hm hspelled hplain
    rw [decode?, Json.ofBytes?_encode hplain]
    exact ofJson?_of_isSpelledBy hm hspelled
  · intro m hm
    have hplain : (Json.array (m.members.map (·.2))).Plain := by
      refine .array fun j hj => ?_
      obtain ⟨x, hx, rfl⟩ := List.mem_map.1 hj
      exact m.plain_of_mem hx
    rw [decode?, Json.ofBytes?_encode hplain]
    exact ofJson?_items hm
  · intro bs m hbs
    refine ⟨hdecode m (isReadable_of_decode? hbs), ?_⟩
    intro m' hm'
    rw [eq_of_decode?_encode hm']

/-- The fields are out of order, the details an array, and one field is not known; the delta
commit was requested in a leap second, which its bytes tell by the clock of another place. -/
theorem codec_of_foreign :
    ∃ bs m, decode? bs = some m ∧ bs ≠ m.encode ∧ m.IsReadable ∧ decode? m.encode = some m ∧
      (∀ m', decode? m.encode = some m' → m'.encode = m.encode) ∧
      m.IsSpelledBy (("note", .null) :: m.members.reverse) ∧
      decode? (Text.encode (Json.object (("note", .null) :: m.members.reverse)).chars) = some m ∧
      decode? (Text.encode (Json.array (m.members.map (·.2))).chars) = some m := by
  let m : Marker := ⟨⟨⟨"001"⟩, .deltaCommit, .completed⟩, .metadata ⟨["f"], 7⟩,
    some ⟨1483228799, 1250000000, by decide⟩⟩
  let bs : Bytes := Text.encode ("\x7b\"state\":\"completed\",\"note\":[null],".toList ++
    "\"details\":[\"commit_metadata\",[\"f\"],7],\"action\":\x7b\"delta_commit\":null\x7d,".toList ++
    "\"requested_at\":\"2017-01-01T05:29:60.25+05:30\",\"timestamp\":\"001\"\x7d".toList)
  have hbs : decode? bs = some m := by decide +kernel
  have hne : bs ≠ m.encode := by decide +kernel
  have hm : m.IsReadable := by decide
  have hspelled : m.IsSpelledBy (("note", .null) :: m.members.reverse) := by
    intro f hf
    simp only [fieldNames, List.mem_cons, List.not_mem_nil, or_false] at hf
    rcases hf with rfl | rfl | rfl | rfl | rfl <;> rfl
  have hplain : (Json.object (("note", .null) :: m.members.reverse)).Plain := by
    refine .object fun x hx => ?_
    rcases List.mem_cons.1 hx with rfl | hx
    · exact .null
    · exact m.plain_of_mem (List.mem_reverse.1 hx)
  obtain ⟨-, hobject, harray, hdecoded⟩ := codec
  obtain ⟨hencode, hkeeps⟩ := hdecoded bs m hbs
  exact ⟨bs, m, hbs, hne, hm, hencode, hkeeps, hspelled, hobject m _ hm hspelled hplain,
    harray m hm⟩

end Marker
end CommitTimeline
