/-
# Reading a stored marker

A marker can be read again if its timestamp, and those in its plan, are of the kind
that callers name (`Marker.IsReadable`). The bytes of such a marker are decoded as
the marker itself, and the bytes of any other as none (`Marker.decode?_encode`). So
what is read is what was written (`Marker.eq_of_decode?_encode`), and no two markers
share bytes (`Marker.encode_injective`). Whatever bytes a marker was read from, it can be
read again once it is written (`Marker.isReadable_of_decode?`).
-/

import CommitTimeline.Marker.Codec
import CommitTimeline.Proofs.Time.RoundTrip

namespace CommitTimeline

namespace Timestamp

/-- A text is taken for a timestamp just if a caller may name one by it. -/
theorem ofString_eq_ok_iff {s : String} {t : Timestamp} :
    ofString s = .ok t ↔ t.text = s ∧ t.IsValid := by
  rw [ofString]
  split
  · rename_i he
    constructor
    · intro h
      cases h
    · rintro ⟨rfl, hne, -⟩
      exact absurd he hne
  split
  · rename_i hne hall
    rw [Except.ok.injEq]
    constructor
    · rintro rfl
      exact ⟨rfl, hne, hall⟩
    · rintro ⟨rfl, -⟩
      rfl
  · rename_i hall
    constructor
    · intro h
      cases h
    · rintro ⟨rfl, -, h⟩
      exact absurd h hall

/-- What is written of a timestamp is read if a caller may name it. -/
theorem ofJson?_toJson (t : Timestamp) : ofJson? t.toJson = if t.IsValid then some t else none := by
  have hj : ofJson? t.toJson = (ofString t.text).toOption := rfl
  rw [hj]
  split
  · rename_i h
    rw [ofString_eq_ok_iff.2 ⟨rfl, h⟩]
    rfl
  · rename_i h
    cases hs : ofString t.text with
    | error fault => rfl
    | ok u =>
      obtain ⟨htext, hu⟩ := ofString_eq_ok_iff.1 hs
      exact absurd (show t.IsValid from ⟨htext ▸ hu.1, htext ▸ hu.2⟩) h

/-- A timestamp is told by its value. -/
theorem toJson_injective {t u : Timestamp} (h : t.toJson = u.toJson) : t = u := by
  obtain ⟨s⟩ := t
  obtain ⟨r⟩ := u
  exact congrArg mk (Json.text.inj h)

end Timestamp

/-- An action is read back. -/
theorem Action.ofJson?_toJson (a : Action) : ofJson? a.toJson = some a := by
  cases a <;> decide

/-- A state is read back. -/
theorem State.ofJson?_toJson (s : State) : ofJson? s.toJson = some s := by
  cases s <;> decide

/-- A moment is read back, also one in a leap second. -/
theorem Moment.ofJson?_toJson (m : Moment) : ofJson? m.toJson = some m := by
  simp only [ofJson?, toJson, Json.string?, Option.bind_some, String.toList_ofList,
    Rfc3339.read?_write]

namespace Json

/-- A list is read back if every item is. -/
theorem list?_map {α : Type} {item? : Json → Option α} {toJson : α → Json} {l : List α}
    (h : ∀ a ∈ l, item? (toJson a) = some a) : list? item? (.array (l.map toJson)) = some l := by
  rw [list?]
  induction l with
  | nil => rfl
  | cons a l ih =>
    rw [List.map_cons, List.mapM_cons, h a List.mem_cons_self,
      ih fun b hb => h b (List.mem_cons_of_mem a hb)]
    rfl

/-- A list is not read if one of its items is not. -/
theorem list?_map_eq_none {α : Type} {item? : Json → Option α} {toJson : α → Json} {l : List α}
    {a : α} (ha : a ∈ l) (h : item? (toJson a) = none) :
    list? item? (.array (l.map toJson)) = none := by
  rw [list?]
  induction l with
  | nil => cases ha
  | cons b l ih =>
    rw [List.map_cons, List.mapM_cons]
    rcases List.mem_cons.1 ha with rfl | ha
    · rw [h]
      rfl
    · rw [ih ha]
      cases item? (toJson b) <;> rfl

/-- A natural number is read back. -/
theorem nat?_nat (n : Nat) : nat? (.nat n) = some n := by
  show (Number.ofNat n).toNat? = some n
  rw [Number.toNat?, if_pos ⟨rfl, rfl, rfl⟩]
  exact congrArg some (Text.value_numeral n)

/-- A number of 64 bits is read back. -/
theorem uint64?_nat (n : UInt64) : uint64? (.nat n.toNat) = some n := by
  simp only [uint64?, nat?_nat, Option.bind_eq_bind, Option.bind_some, if_pos n.toNat_lt_size]
  simp [Nat.toUInt64]

end Json

namespace CommitMetadata

/-- What the writer reports is read back. -/
theorem ofJson?_fields (m : CommitMetadata) : ofJson? (.object m.fields) = some m := by
  have hr : (Json.object m.fields).record? ["file_groups", "records_written"] = some m.fields := rfl
  have hg : m.fields.lookup "file_groups" = some (.array (m.fileGroups.map .text)) := rfl
  have hw : m.fields.lookup "records_written" = some (.nat m.recordsWritten.toNat) := rfl
  have hl : Json.list? Json.string? (.array (m.fileGroups.map .text)) = some m.fileGroups :=
    Json.list?_map fun _ _ => rfl
  simp only [ofJson?, hr, hg, hw, hl, Json.uint64?_nat, Option.bind_eq_bind, Option.bind_some]
  rfl

end CommitMetadata

namespace Plan

/-- Every delta commit of the plan has a timestamp that a caller may name. -/
def IsReadable (p : Plan) : Prop :=
  ∀ t ∈ p.deltaCommits, t.IsValid

instance (p : Plan) : Decidable p.IsReadable :=
  inferInstanceAs (Decidable (∀ t ∈ p.deltaCommits, t.IsValid))

/-- A plan is read back just if its timestamps can be read. -/
theorem ofJson?_fields (p : Plan) :
    ofJson? (.object p.fields) = if p.IsReadable then some p else none := by
  have hr : (Json.object p.fields).record? ["delta_commits", "file_groups"] = some p.fields := rfl
  have hc : p.fields.lookup "delta_commits" = some (.array (p.deltaCommits.map Timestamp.toJson)) :=
    rfl
  have hg : p.fields.lookup "file_groups" = some (.array (p.fileGroups.map .text)) := rfl
  have hl : Json.list? Json.string? (.array (p.fileGroups.map .text)) = some p.fileGroups :=
    Json.list?_map fun _ _ => rfl
  simp only [ofJson?, hr, hc, hg, hl, Option.bind_eq_bind, Option.bind_some]
  by_cases h : p.IsReadable
  · have ht : Json.list? Timestamp.ofJson? (.array (p.deltaCommits.map Timestamp.toJson)) =
        some p.deltaCommits := by
      refine Json.list?_map fun t ht => ?_
      rw [Timestamp.ofJson?_toJson, if_pos (h t ht)]
    rw [ht, if_pos h]
    rfl
  · obtain ⟨t, ht, hv⟩ : ∃ t ∈ p.deltaCommits, ¬t.IsValid := by
      simpa only [IsReadable, not_forall, exists_prop] using h
    have hn : Json.list? Timestamp.ofJson? (.array (p.deltaCommits.map Timestamp.toJson)) = none :=
      Json.list?_map_eq_none ht (by rw [Timestamp.ofJson?_toJson, if_neg hv])
    rw [hn, if_neg h]
    rfl

end Plan

namespace Details

/-- The details can be read again. -/
def IsReadable : Details → Prop
  | .plan p => p.IsReadable
  | _ => True

instance : (d : Details) → Decidable d.IsReadable
  | .plan p => inferInstanceAs (Decidable p.IsReadable)
  | .empty | .metadata _ => .isTrue trivial

/-- The value of some details fits into a marker, however deep it is. -/
theorem isKept_toJson (d : Details) : d.toJson.isKept 1 = true := by
  have hs : ∀ l : List String, Json.itemsSound (l.map .text) = true ∧
      Json.itemsDepth (l.map .text) = 0 := by
    intro l
    induction l with
    | nil => exact ⟨rfl, rfl⟩
    | cons s l ih => exact ⟨by simpa [Json.itemsSound, Json.isSound] using ih.1,
        by simpa [Json.itemsDepth, Json.depth] using ih.2⟩
  cases d with
  | empty => decide
  | plan p =>
    have ht : p.deltaCommits.map Timestamp.toJson = (p.deltaCommits.map (·.text)).map .text := by
      rw [List.map_map]
      rfl
    simp only [Json.isKept, toJson, Plan.fields, ht, Json.isSound, Json.membersSound, Json.depth,
      Json.membersDepth, (hs _).1, (hs _).2]
    decide
  | metadata m =>
    simp only [Json.isKept, toJson, CommitMetadata.fields, Json.nat, Json.isSound,
      Json.membersSound, Json.depth, Json.membersDepth, (hs _).1, (hs _).2]
    decide

/-- Details are read back just if they can be. -/
theorem ofJson?_toJson (d : Details) :
    ofJson? 1 d.toJson = if d.IsReadable then some d else none := by
  rw [ofJson?, if_pos d.isKept_toJson]
  cases d with
  | empty => rfl
  | plan p =>
    have ht : tagged? (toJson (.plan p)) = some ("compaction_plan", .object p.fields) := rfl
    rw [ht]
    show (Plan.ofJson? (.object p.fields)).map Details.plan = _
    rw [Plan.ofJson?_fields]
    by_cases h : p.IsReadable
    · rw [if_pos h, if_pos (show (Details.plan p).IsReadable from h)]
      rfl
    · rw [if_neg h, if_neg (show ¬(Details.plan p).IsReadable from h)]
      rfl
  | metadata m =>
    have ht : tagged? (toJson (.metadata m)) = some ("commit_metadata", .object m.fields) := rfl
    rw [ht]
    show (CommitMetadata.ofJson? (.object m.fields)).map Details.metadata = _
    rw [CommitMetadata.ofJson?_fields]
    rfl

/-- Details are told by their value. -/
theorem toJson_injective {d e : Details} (h : d.toJson = e.toJson) : d = e := by
  have htexts : ∀ {l m : List String}, l.map Json.text = m.map Json.text → l = m := fun h =>
    (List.map_inj_right fun _ _ => Json.text.inj).1 h
  cases d <;> cases e <;>
    simp only [toJson, Plan.fields, CommitMetadata.fields, Json.object.injEq, List.cons.injEq,
      Prod.mk.injEq, Json.text.injEq, Json.array.injEq, true_and, and_true, String.reduceEq,
      false_and, reduceCtorEq] at h
  · rfl
  · rename_i p q
    obtain ⟨hc, hg⟩ := h
    have hc : p.deltaCommits = q.deltaCommits :=
      (List.map_inj_right fun _ _ => Timestamp.toJson_injective).1 hc
    exact congrArg plan (Plan.mk.injEq .. ▸ ⟨hc, htexts hg⟩)
  · rename_i m n
    obtain ⟨hg, hw⟩ := h
    have hw := congrArg Json.uint64? hw
    rw [Json.uint64?_nat, Json.uint64?_nat] at hw
    exact congrArg metadata (CommitMetadata.mk.injEq .. ▸ ⟨htexts hg, Option.some.inj hw⟩)

end Details

namespace Marker

/-- The marker can be read again: callers may name every timestamp in it. -/
def IsReadable (m : Marker) : Prop :=
  m.timestamp.IsValid ∧ m.details.IsReadable

instance (m : Marker) : Decidable m.IsReadable :=
  inferInstanceAs (Decidable (_ ∧ _))

/-- A list of texts may be written. -/
theorem plain_texts (l : List String) : (Json.array (l.map .text)).Plain := by
  refine .array fun j hj => ?_
  obtain ⟨s, -, rfl⟩ := List.mem_map.1 hj
  exact .text s

/-- Details may be written. -/
theorem plain_details (d : Details) : d.toJson.Plain := by
  cases d with
  | empty =>
    refine .object fun m hm => ?_
    rw [List.mem_singleton] at hm
    exact hm ▸ .text _
  | plan p =>
    have ht : p.deltaCommits.map Timestamp.toJson = (p.deltaCommits.map (·.text)).map .text := by
      rw [List.map_map]
      rfl
    refine .object fun m hm => ?_
    simp only [Plan.fields, ht, List.mem_cons, List.not_mem_nil, or_false] at hm
    rcases hm with rfl | rfl | rfl
    · exact .text _
    · exact plain_texts _
    · exact plain_texts _
  | metadata m =>
    refine .object fun f hf => ?_
    simp only [CommitMetadata.fields, List.mem_cons, List.not_mem_nil, or_false] at hf
    rcases hf with rfl | rfl | rfl
    · exact .text _
    · exact plain_texts _
    · exact .nat m.recordsWritten.toNat_lt_size

/-- A marker may be written. -/
theorem plain_toJson (m : Marker) : m.toJson.Plain := by
  obtain ⟨⟨timestamp, action, state⟩, details, requestedAt⟩ := m
  refine .object fun f hf => ?_
  rcases List.mem_append.1 hf with hf | hf
  · simp only [List.mem_cons, List.not_mem_nil, or_false] at hf
    rcases hf with rfl | rfl | rfl | rfl
    · exact .text _
    · exact .text _
    · exact .text _
    · exact plain_details details
  · cases requestedAt with
    | none => cases hf
    | some m =>
      rw [List.mem_singleton] at hf
      exact hf ▸ .text _

/-- A marker is found in its JSON if it can be read again. -/
theorem ofJson?_toJson (m : Marker) : ofJson? m.toJson = if m.IsReadable then some m else none := by
  obtain ⟨⟨timestamp, action, state⟩, details, requestedAt⟩ := m
  have hj : ofJson? (toJson ⟨⟨timestamp, action, state⟩, details, requestedAt⟩) =
      (Timestamp.ofJson? timestamp.toJson).bind fun t =>
        (Action.ofJson? action.toJson).bind fun a =>
          (State.ofJson? state.toJson).bind fun s =>
            (Details.ofJson? 1 details.toJson).bind fun d =>
              (optional? Moment.ofJson? (requestedAt.map Moment.toJson)).bind fun r =>
                some ⟨⟨t, a, s⟩, d, r⟩ := by
    cases requestedAt <;> rfl
  have hm : optional? Moment.ofJson? (requestedAt.map Moment.toJson) = some requestedAt := by
    cases requestedAt with
    | none => rfl
    | some m =>
      show (Moment.ofJson? m.toJson).map some = _
      rw [Moment.ofJson?_toJson]
      rfl
  rw [hj, Timestamp.ofJson?_toJson, Action.ofJson?_toJson, State.ofJson?_toJson,
    Details.ofJson?_toJson, hm]
  by_cases ht : timestamp.IsValid
  · by_cases hd : details.IsReadable
    · rw [if_pos ht, if_pos hd]
      exact (if_pos (show IsReadable ⟨⟨timestamp, action, state⟩, details, requestedAt⟩
        from ⟨ht, hd⟩)).symm
    · rw [if_pos ht, if_neg hd]
      exact (if_neg fun h : IsReadable ⟨⟨timestamp, action, state⟩, details, requestedAt⟩ =>
        hd h.2).symm
  · rw [if_neg ht]
    exact (if_neg fun h : IsReadable ⟨⟨timestamp, action, state⟩, details, requestedAt⟩ =>
      ht h.1).symm

/-- **Markers are read back from their bytes,** those that can be read at all. -/
theorem decode?_encode (m : Marker) : decode? m.encode = if m.IsReadable then some m else none := by
  rw [decode?, encode, Json.ofBytes?_encode m.plain_toJson]
  exact m.ofJson?_toJson

/-- What is read is what was written. -/
theorem eq_of_decode?_encode {m n : Marker} (h : decode? m.encode = some n) : n = m := by
  rw [decode?_encode] at h
  split at h
  · exact (Option.some.inj h).symm
  · cases h

/-- **No two markers share bytes,** readable or not. -/
theorem encode_injective {m n : Marker} (h : m.encode = n.encode) : m = n := by
  have hj : m.toJson = n.toJson := Json.eq_of_encode_eq m.plain_toJson n.plain_toJson h
  obtain ⟨⟨t, a, s⟩, d, r⟩ := m
  obtain ⟨⟨t', a', s'⟩, d', r'⟩ := n
  simp only [toJson, Json.object.injEq, List.cons_append, List.nil_append, List.cons.injEq,
    Prod.mk.injEq, true_and] at hj
  obtain ⟨ht, ha, hs, hd, hr⟩ := hj
  have ha := congrArg Action.ofJson? ha
  have hs := congrArg State.ofJson? hs
  rw [Action.ofJson?_toJson, Action.ofJson?_toJson] at ha
  rw [State.ofJson?_toJson, State.ofJson?_toJson] at hs
  obtain rfl := Timestamp.toJson_injective ht
  obtain rfl := Option.some.inj ha
  obtain rfl := Option.some.inj hs
  obtain rfl := Details.toJson_injective hd
  have hr' : r = r' := by
    cases r <;> cases r' <;> simp only [List.cons.injEq, Prod.mk.injEq, true_and, and_true,
      reduceCtorEq] at hr ⊢
    have hr := congrArg Moment.ofJson? hr
    rw [Moment.ofJson?_toJson, Moment.ofJson?_toJson] at hr
    exact hr
  rw [hr']

end Marker
namespace Timestamp

/-- What is read is a timestamp that callers may name. -/
theorem isValid_of_ofJson? {j : Json} {t : Timestamp} (h : ofJson? j = some t) : t.IsValid := by
  obtain ⟨s, -, hs⟩ := Option.bind_eq_some_iff.1 h
  cases hu : ofString s with
  | error fault =>
    rw [hu] at hs
    cases hs
  | ok u =>
    rw [hu] at hs
    obtain rfl := Option.some.inj hs
    exact (ofString_eq_ok_iff.1 hu).2

end Timestamp

/-- What holds of every item that is read holds of the list. -/
theorem Json.forall_of_list? {α : Type} {item? : Json → Option α} {p : α → Prop}
    (hp : ∀ j a, item? j = some a → p a) {j : Json} {l : List α} (h : list? item? j = some l) :
    ∀ a ∈ l, p a := by
  unfold list? at h
  split at h
  · rename_i items
    induction items generalizing l with
    | nil =>
      obtain rfl := Option.some.inj h
      intro a ha
      cases ha
    | cons j items ih =>
      rw [List.mapM_cons] at h
      obtain ⟨b, hb, h⟩ := Option.bind_eq_some_iff.1 h
      obtain ⟨m, hm, h⟩ := Option.bind_eq_some_iff.1 h
      obtain rfl := Option.some.inj h
      intro a ha
      rcases List.mem_cons.1 ha with rfl | ha
      · exact hp j a hb
      · exact ih hm a ha
  · cases h

/-- A plan that was read has timestamps that can be read. -/
theorem Plan.isReadable_of_ofJson? {j : Json} {p : Plan} (h : ofJson? j = some p) :
    p.IsReadable := by
  obtain ⟨fields, -, h⟩ := Option.bind_eq_some_iff.1 h
  obtain ⟨deltaCommits, hd, h⟩ := Option.bind_eq_some_iff.1 h
  obtain ⟨fileGroups, -, h⟩ := Option.bind_eq_some_iff.1 h
  obtain rfl := Option.some.inj h
  obtain ⟨d, -, hd⟩ := Option.bind_eq_some_iff.1 hd
  exact Json.forall_of_list? (fun _ _ => Timestamp.isValid_of_ofJson?) hd

/-- Details that were read can be read. -/
theorem Details.isReadable_of_ofJson? {around : Nat} {j : Json} {d : Details}
    (h : ofJson? around j = some d) : d.IsReadable := by
  cases d with
  | empty => trivial
  | metadata m => trivial
  | plan p =>
    unfold ofJson? at h
    split at h
    · obtain ⟨⟨kind, rest⟩, -, h⟩ := Option.bind_eq_some_iff.1 h
      dsimp only at h
      split at h
      · split at h <;> cases h
      split at h
      · obtain ⟨q, hq, hp⟩ := Option.map_eq_some_iff.1 h
        obtain rfl := Details.plan.inj hp
        exact Plan.isReadable_of_ofJson? hq
      split at h
      · obtain ⟨q, -, hq⟩ := Option.map_eq_some_iff.1 h
        cases hq
      · cases h
    · cases h

/-- **What is read can be read again,** whoever wrote it. -/
theorem Marker.isReadable_of_decode? {data : Bytes} {m : Marker} (h : decode? data = some m) :
    m.IsReadable := by
  obtain ⟨j, -, h⟩ := Option.bind_eq_some_iff.1 h
  obtain ⟨fields, -, h⟩ := Option.bind_eq_some_iff.1 h
  obtain ⟨t, ht, h⟩ := Option.bind_eq_some_iff.1 h
  obtain ⟨a, -, h⟩ := Option.bind_eq_some_iff.1 h
  obtain ⟨s, -, h⟩ := Option.bind_eq_some_iff.1 h
  obtain ⟨j, -, ht⟩ := Option.bind_eq_some_iff.1 ht
  have hd : m.timestamp = t ∧ m.details.IsReadable := by
    dsimp only at h
    split at h
    · obtain ⟨d, hd, h⟩ := Option.bind_eq_some_iff.1 h
      obtain ⟨r, -, h⟩ := Option.bind_eq_some_iff.1 h
      obtain rfl := Option.some.inj h
      exact ⟨rfl, Details.isReadable_of_ofJson? hd⟩
    · obtain ⟨d, hd, h⟩ := Option.bind_eq_some_iff.1 h
      obtain rfl := Option.some.inj hd
      obtain ⟨r, -, h⟩ := Option.bind_eq_some_iff.1 h
      obtain rfl := Option.some.inj h
      exact ⟨rfl, trivial⟩
  exact ⟨hd.1 ▸ Timestamp.isValid_of_ofJson? ht, hd.2⟩

end CommitTimeline
