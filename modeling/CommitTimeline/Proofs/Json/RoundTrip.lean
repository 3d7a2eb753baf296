/-
# Reading what was written

The compact text of a value is read back as that value, whatever follows it
(`Json.value?_chars`), so bytes that spell it spell nothing else
(`Json.ofBytes?_encode`) and no two values share bytes (`Json.eq_of_encode_eq`). This
is said of the values that are ever written: nothing broken, and no number but
naturals of 64 bits (`Json.Plain`).

Texts go one character at a time: an escape is read as the character it stands for
(`Json.pieces?_escape`). Arrays and objects go one part at a time, on the fuel that
the length of their text gives.
-/

import CommitTimeline.Json.Printer
import CommitTimeline.Json.Reader
import CommitTimeline.Proofs.Text.Numeral

namespace CommitTimeline

namespace Text

/-- A numeral is that of the tenth part with one more digit. -/
theorem numeral_eq_append (n : Nat) :
    numeral n = (if n < 10 then [] else numeral (n / 10)) ++ [digit n] := by
  rw [numeral]
  split <;> rfl

/-- A numeral has digits only. -/
theorem isDigit_of_mem_numeral {n : Nat} {c : Char} (h : c ∈ numeral n) : c.isDigit = true := by
  fun_induction numeral n with
  | case1 n hn =>
    rw [List.mem_singleton] at h
    exact h ▸ isDigit_digit n
  | case2 n hn ih =>
    rcases List.mem_append.1 h with h | h
    · exact ih h
    · rw [List.mem_singleton] at h
      exact h ▸ isDigit_digit n

/-- A numeral has at least one digit. -/
theorem numeral_ne_nil (n : Nat) : numeral n ≠ [] := by
  rw [numeral_eq_append]
  simp

/-- A numeral starts with a zero only if it is the numeral of zero. -/
theorem head?_numeral {n : Nat} (h : (numeral n).head? = some '0') : n = 0 := by
  fun_induction numeral n with
  | case1 n hn =>
    have hd : digitValue (digit n) = n % 10 := digitValue_digit n
    simp only [List.head?_cons, Option.some.injEq] at h
    rw [h] at hd
    have h0 : digitValue '0' = 0 := by decide
    omega
  | case2 n hn ih =>
    rw [List.head?_append, Option.or_of_isSome (by simp [numeral_ne_nil])] at h
    have := ih h
    omega

/-- A numeral is read as its number. -/
theorem integer?_numeral (n : Nat) : integer? (numeral n) = some (n : Int) := by
  have hd : ∀ c ∈ numeral n, c.isDigit = true := fun c hc => isDigit_of_mem_numeral hc
  have hn : natural? (numeral n) = some n := by
    rw [natural?, if_pos ⟨numeral_ne_nil n, List.all_eq_true.2 hd⟩, value_numeral]
  unfold integer?
  split
  · rename_i rest heq
    exact absurd (hd '-' (heq ▸ List.mem_cons_self)) (by decide)
  · rename_i rest heq
    exact absurd (hd '+' (heq ▸ List.mem_cons_self)) (by decide)
  · rw [hn]
    rfl

end Text

namespace Json

/-- A value that is ever written: nothing in it is broken, and its numbers are
naturals of 64 bits. -/
inductive Plain : Json → Prop where
  | null : Plain .null
  | bool (b : Bool) : Plain (.bool b)
  | nat {n : Nat} (h : n < UInt64.size) : Plain (.nat n)
  | text (s : String) : Plain (.text s)
  | array {items : List Json} (h : ∀ j ∈ items, Plain j) : Plain (.array items)
  | object {members : List (String × Json)} (h : ∀ m ∈ members, Plain m.2) :
    Plain (.object members)

/-- What may follow a number without changing it. -/
def Closes (rest : List Symbol) : Prop :=
  ∀ c r, rest = some c :: r → c.isDigit = false ∧ c ≠ '.' ∧ c ≠ 'e' ∧ c ≠ 'E'

/-- A number may end where the text ends. -/
theorem closes_nil : Closes [] := by
  intro c r h
  cases h

/-- A number may end before a comma and before a closing bracket. -/
theorem closes_cons {c : Char} (h : c = ',' ∨ c = ']' ∨ c = '}') (rest : List Symbol) :
    Closes (some c :: rest) := by
  intro d r he
  cases he
  rcases h with rfl | rfl | rfl <;> decide

/-! ## Numbers -/

/-- The digits that are read end where the number does. -/
theorem digits_append {ds : List Char} (hd : ∀ c ∈ ds, c.isDigit = true) {rest : List Symbol}
    (hr : Closes rest) : digits (ds.map some ++ rest) = (ds, rest) := by
  induction ds with
  | nil =>
    rw [List.map_nil, List.nil_append]
    cases rest with
    | nil => rfl
    | cons a r =>
      cases a with
      | none => rfl
      | some c => rw [digits, if_neg (by simp [(hr c r rfl).1])]
  | cons c ds ih =>
    rw [List.map_cons, List.cons_append, digits, if_pos (hd c (by simp)),
      ih fun x hx => hd x (by simp [hx])]
    rfl

/-- Digits are taken as long as the number fits 64 bits. -/
theorem takeDigits_eq {ds : List Char} {m : Nat}
    (h : ds.foldl (fun n c => 10 * n + Text.digitValue c) m < UInt64.size) :
    Number.takeDigits m ds = (ds.foldl (fun n c => 10 * n + Text.digitValue c) m, []) := by
  induction ds generalizing m with
  | nil => rfl
  | cons c ds ih =>
    rw [List.foldl_cons] at h
    have hle := Text.le_foldl_digits ds (10 * m + Text.digitValue c)
    rw [Number.takeDigits, if_pos (Nat.lt_of_le_of_lt hle h), ih h, List.foldl_cons]

/-- Rounding to a double does not double a number, but for one. -/
theorem nearest_le (n : Nat) : Double.nearest n ≤ 2 * n + 1 := by
  have hs : Double.spacing n ≤ n + 1 := by
    rw [Double.spacing]
    by_cases hn : n.log2 - 52 = 0
    · rw [hn]
      exact Nat.succ_le_succ (Nat.zero_le n)
    · have h0 : n ≠ 0 := by
        rintro rfl
        exact hn (by decide)
      calc Nat.pow 2 (n.log2 - 52) ≤ Nat.pow 2 n.log2 :=
            Nat.pow_le_pow_right (by decide) (Nat.sub_le _ _)
        _ ≤ n := Nat.log2_self_le h0
        _ ≤ n + 1 := Nat.le_succ n
  have hd : n / Double.spacing n * Double.spacing n ≤ n := Nat.div_mul_le_self _ _
  unfold Double.nearest
  simp only
  split
  · omega
  · rw [Nat.add_mul, Nat.one_mul]
    omega

/-- The literal of a natural number of 64 bits is not too large. -/
theorem overflows_ofNat {n : Nat} (h : n < UInt64.size) : (Number.ofNat n).overflows = false := by
  have hv : (Text.numeral n).foldl (fun n c => 10 * n + Text.digitValue c) 0 = n :=
    Text.value_numeral n
  have ht : (Number.ofNat n).scientific = (n, 0) := by
    have h1 : Number.takeDigits 0 (Text.numeral n) = (n, []) := by
      rw [takeDigits_eq (by rw [hv]; exact h), hv]
    simp only [Number.scientific, Number.ofNat, h1, Option.getD_none, Number.takeDigits,
      Number.scale, List.length_nil]
    rfl
  have hn := nearest_le n
  have h1 : Double.nearest (Nat.pow 10 (0 : Int).toNat) = 1 := Double.nearest_of_lt (by decide)
  have hb : UInt64.size * 2 ≤ Double.bound := by decide +kernel
  simp only [Number.overflows, ht]
  split
  · rfl
  · rw [if_neg (by decide), h1, decide_eq_false_iff_not]
    omega

/-- A number of 64 bits is read back as it was written. -/
theorem number?_ofNat {n : Nat} (h : n < UInt64.size) {rest : List Symbol} (hr : Closes rest) :
    number? ((Number.ofNat n).chars.map some ++ rest) = some (.nat n, rest) := by
  have hd : ∀ c ∈ Text.numeral n, c.isDigit = true := fun c hc => Text.isDigit_of_mem_numeral hc
  have hc : (Number.ofNat n).chars = Text.numeral n := by
    simp [Number.chars, Number.ofNat]
  have hs : sign ((Text.numeral n).map some ++ rest) =
      (false, (Text.numeral n).map some ++ rest) := by
    unfold sign
    split
    · rename_i r heq
      cases hm : Text.numeral n with
      | nil => exact absurd hm (Text.numeral_ne_nil n)
      | cons c cs =>
        rw [hm, List.map_cons, List.cons_append, List.cons.injEq, Option.some.injEq] at heq
        exact absurd (hd '-' (by rw [hm, heq.1]; exact List.mem_cons_self)) (by decide)
    · rfl
  have hw : whole? ((Text.numeral n).map some ++ rest) = some (Text.numeral n, rest) := by
    have hz : ¬((Text.numeral n).head? = some '0' ∧ (Text.numeral n).length ≠ 1) := by
      rintro ⟨h0, h1⟩
      rw [Text.head?_numeral h0, Text.numeral] at h1
      exact h1 rfl
    simp only [whole?, digits?, digits_append hd hr, if_neg (Text.numeral_ne_nil n),
      Option.bind_eq_bind, Option.bind_some, if_neg hz]
  have hf : fraction? rest = some (none, rest) := by
    unfold fraction?
    split
    · exact absurd rfl (hr _ _ rfl).2.1
    · rfl
  have he : exponent? rest = some (none, rest) := by
    unfold exponent?
    split
    · exact absurd rfl (hr _ _ rfl).2.2.1
    · exact absurd rfl (hr _ _ rfl).2.2.2
    · rfl
  rw [hc]
  simp only [number?, hs, hw, hf, he, Option.bind_eq_bind, Option.bind_some]
  have ho := overflows_ofNat h
  rw [Number.ofNat] at ho
  rw [ho]
  rfl

/-! ## Texts -/

/-- A hexadecimal digit is read as its value. -/
theorem hexValue?_hexDigit (n : Nat) : hexValue? (some (hexDigit n)) = some (n % 16) := by
  have h : ∀ d, d < 16 → hexValue? (some (hexDigit d)) = some d := by decide
  have hm : hexDigit n = hexDigit (n % 16) := by simp only [hexDigit, Nat.mod_mod]
  rw [hm]
  exact h _ (Nat.mod_lt _ (by decide))

/-- A character that stands for itself is read as itself. -/
theorem textChars?_char (c : Char) (ps : List Piece) :
    textChars? (.char c :: ps) = (textChars? ps).map (c :: ·) := rfl

/-- A control character is what its unit denotes. -/
theorem textChars?_unit {c : Char} (h : c.toNat < 0x20) (ps : List Piece) :
    textChars? (.unit c.toNat :: ps) = (textChars? ps).map (c :: ·) := by
  rw [textChars?.eq_def]
  simp only
  rw [if_neg (by omega), if_neg (by omega), Char.ofNat_toNat]

/-- An escaped character is read as one piece, which denotes it. -/
theorem pieces?_escape (c : Char) (s : List Symbol) :
    ∃ p : Piece, pieces? ((escape c).map some ++ s) =
        (pieces? s).map (fun (ps, rest) => (p :: ps, rest)) ∧
      ∀ ps, textChars? (p :: ps) = (textChars? ps).map (c :: ·) := by
  have letter : ∀ n l, c.toNat = n → l ≠ 'u' → unescape? l = some (Char.ofNat n) →
      ∃ p : Piece, pieces? ((['\\', l] : List Char).map some ++ s) =
          (pieces? s).map (fun (ps, rest) => (p :: ps, rest)) ∧
        ∀ ps, textChars? (p :: ps) = (textChars? ps).map (c :: ·) := by
    intro n l hn hl hu
    rw [← hn, Char.ofNat_toNat] at hu
    refine ⟨.char c, ?_, textChars?_char c⟩
    rw [List.map_cons, List.map_cons, List.cons_append, List.cons_append, pieces?, hu]
    · rfl
    · exact fun _ _ _ _ _ _ h => hl h
  unfold escape
  split
  · rename_i h
    exact letter 34 '"' (h ▸ rfl) (by decide) (by decide)
  split
  · rename_i h
    exact letter 92 '\\' (h ▸ rfl) (by decide) (by decide)
  split
  · rename_i hc
    split
    · exact letter 8 'b' ‹_› (by decide) (by decide)
    split
    · exact letter 9 't' ‹_› (by decide) (by decide)
    split
    · exact letter 10 'n' ‹_› (by decide) (by decide)
    split
    · exact letter 12 'f' ‹_› (by decide) (by decide)
    split
    · exact letter 13 'r' ‹_› (by decide) (by decide)
    · refine ⟨.unit c.toNat, ?_, textChars?_unit hc⟩
      have h0 : hexValue? (some '0') = some 0 := by decide
      have hn : (0 * 16 + 0) * 256 + c.toNat / 16 % 16 * 16 + c.toNat % 16 = c.toNat := by omega
      simp only [List.map_cons, List.cons_append, pieces?, h0, hexValue?_hexDigit,
        Option.bind_eq_bind, Option.bind_some, hn, List.map_nil, List.nil_append]
  · rename_i hq hb hc
    refine ⟨.char c, ?_, textChars?_char c⟩
    rw [List.map_cons, List.cons_append, pieces?, if_neg hc]
    · rfl
    · exact hq
    · exact fun _ _ _ _ _ _ h => hb h
    · exact fun _ _ _ => hb
    · exact hb

/-- A text up to its closing quote is read as that text. -/
theorem text?_escape (cs : List Char) (rest : List Symbol) :
    text? ((cs.flatMap escape).map some ++ some '"' :: rest) =
      some (some (String.ofList cs), rest) := by
  have h : ∃ ps, pieces? ((cs.flatMap escape).map some ++ some '"' :: rest) = some (ps, rest) ∧
      textChars? ps = some cs := by
    induction cs with
    | nil => exact ⟨[], rfl, rfl⟩
    | cons c cs ih =>
      obtain ⟨ps, hp, ht⟩ := ih
      obtain ⟨p, hp', ht'⟩ := pieces?_escape c ((cs.flatMap escape).map some ++ some '"' :: rest)
      refine ⟨p :: ps, ?_, by rw [ht', ht]; rfl⟩
      rw [List.flatMap_cons, List.map_append, List.append_assoc, hp', hp]
      rfl
  obtain ⟨ps, hp, ht⟩ := h
  rw [text?, hp]
  simp [ht]

/-! ## Values -/

/-- Before a character that is no space there is nothing to skip. -/
theorem skip_some {c : Char} (h : isSpace (some c) = false) (s : List Symbol) :
    skip (some c :: s) = some c :: s := by
  rw [skip, List.dropWhile_cons_of_neg (by simp [h])]

/-- The first character of a value that is ever written: no blank, and nothing that
closes an array or an object. -/
theorem Plain.exists_cons {j : Json} (h : Plain j) :
    ∃ c cs, j.chars = c :: cs ∧ isSpace (some c) = false ∧ c ≠ ']' ∧ c ≠ '}' := by
  cases h with
  | null => exact ⟨_, _, rfl, by decide⟩
  | bool b => cases b <;> exact ⟨_, _, rfl, by decide⟩
  | text s => exact ⟨_, _, rfl, by decide⟩
  | array => exact ⟨_, _, rfl, by decide⟩
  | object => exact ⟨_, _, rfl, by decide⟩
  | @nat n hn =>
    cases hm : Text.numeral n with
    | nil => exact absurd hm (Text.numeral_ne_nil n)
    | cons c cs =>
      have hd : c.isDigit = true := Text.isDigit_of_mem_numeral (hm ▸ List.mem_cons_self)
      refine ⟨c, cs, by simp [Json.nat, chars, Number.chars, Number.ofNat, hm], ?_⟩
      refine ⟨?_, ?_, ?_⟩
      · rw [Bool.eq_false_iff]
        intro hs
        simp only [isSpace, Bool.or_eq_true, decide_eq_true_eq, Option.some.injEq] at hs
        rcases hs with ((rfl | rfl) | rfl) | rfl <;> exact absurd hd (by decide)
      · rintro rfl
        exact absurd hd (by decide)
      · rintro rfl
        exact absurd hd (by decide)

/-- The parts of an array are read one after the other, if each of them is. -/
theorem items?_itemsChars {items : List Json} (hne : items ≠ []) (hp : ∀ j ∈ items, Plain j)
    (ih : ∀ j ∈ items, ∀ fuel rest, j.chars.length ≤ fuel → Closes rest →
      value? fuel (j.chars.map some ++ rest) = some (j, rest))
    (fuel : Nat) (rest : List Symbol) (hf : (itemsChars items).length < fuel) :
    items? fuel ((itemsChars items).map some ++ some ']' :: rest) = some (items, rest) := by
  induction items generalizing fuel with
  | nil => exact absurd rfl hne
  | cons j js ihj =>
    obtain ⟨fuel, rfl⟩ : ∃ k, fuel = k + 1 := ⟨fuel - 1, by omega⟩
    cases js with
    | nil =>
      rw [itemsChars] at hf ⊢
      rw [items?, ih j (by simp) fuel _ (by omega) (closes_cons (by simp) _)]
      simp only [Option.bind_eq_bind, Option.bind_some, skip_some (c := ']') (by decide)]
    | cons k ks =>
      have hc : itemsChars (j :: k :: ks) = j.chars ++ ',' :: itemsChars (k :: ks) := by
        rw [itemsChars]
        simp
      rw [hc] at hf ⊢
      rw [List.length_append, List.length_cons] at hf
      rw [List.map_append, List.map_cons, List.append_assoc, List.cons_append, items?,
        ih j (by simp) fuel _ (by omega) (closes_cons (by simp) _)]
      simp only [Option.bind_eq_bind, Option.bind_some, skip_some (c := ',') (by decide)]
      rw [ihj (by simp) (fun i hi => hp i (by simp [hi])) (fun i hi => ih i (by simp [hi])) fuel
        (by omega)]
      rfl

section Members

variable {fuel : Nat} {k : String} {v : Json} {s t rest : List Symbol}

/-- A quoted text is read back, to its closing quote. -/
theorem text?_quote (k : String) (s : List Symbol) :
    ∃ r, (quote k).map some ++ s = some '"' :: r ∧ text? r = some (some k, s) := by
  refine ⟨(k.toList.flatMap escape).map some ++ some '"' :: s, ?_, ?_⟩
  · simp only [quote, List.cons_append, List.map_cons, List.map_append, List.append_assoc,
      List.nil_append, List.map_nil]
  · rw [text?_escape, String.ofList_toList]

/-- The last member of an object is read up to the closing brace. -/
theorem members?_last (hv : value? fuel s = some (v, some '}' :: rest)) :
    members? (fuel + 1) ((quote k).map some ++ some ':' :: s) = some ([(some k, v)], rest) := by
  obtain ⟨r, hr, ht⟩ := text?_quote k (some ':' :: s)
  rw [hr, members?, skip_some (by decide)]
  simp only [ht, Option.bind_eq_bind, Option.bind_some, skip_some (c := ':') (by decide), hv,
    skip_some (c := '}') (by decide)]

/-- A member with a comma behind it is read before the others. -/
theorem members?_more {members : List (Option String × Json)}
    (hv : value? fuel s = some (v, some ',' :: t)) (hm : members? fuel t = some (members, rest)) :
    members? (fuel + 1) ((quote k).map some ++ some ':' :: s) =
      some ((some k, v) :: members, rest) := by
  obtain ⟨r, hr, ht⟩ := text?_quote k (some ':' :: s)
  rw [hr, members?, skip_some (by decide)]
  simp only [ht, Option.bind_eq_bind, Option.bind_some, skip_some (c := ':') (by decide), hv,
    skip_some (c := ',') (by decide), hm, Option.map_some]

end Members

/-- The members of an object are read one after the other, if their values are. -/
theorem members?_membersChars {members : List (String × Json)} (hne : members ≠ [])
    (ih : ∀ m ∈ members, ∀ fuel rest, m.2.chars.length ≤ fuel → Closes rest →
      value? fuel (m.2.chars.map some ++ rest) = some (m.2, rest))
    (fuel : Nat) (rest : List Symbol) (hf : (membersChars members).length < fuel) :
    members? fuel ((membersChars members).map some ++ some '}' :: rest) =
      some (members.map fun m => (some m.1, m.2), rest) := by
  induction members generalizing fuel with
  | nil => exact absurd rfl hne
  | cons m ms ihm =>
    obtain ⟨k, v⟩ := m
    obtain ⟨fuel, rfl⟩ : ∃ n, fuel = n + 1 := ⟨fuel - 1, by omega⟩
    cases ms with
    | nil =>
      rw [membersChars] at hf ⊢
      simp only [List.length_append, List.length_cons] at hf
      rw [List.map_append, List.map_cons, List.append_assoc, List.cons_append]
      exact members?_last (ih _ List.mem_cons_self fuel _ (by simp only; omega)
        (closes_cons (by simp) _))
    | cons n ns =>
      have hc : membersChars ((k, v) :: n :: ns) =
          quote k ++ ':' :: (v.chars ++ ',' :: membersChars (n :: ns)) := by
        rw [membersChars]
        · simp
        · simp
      rw [hc] at hf ⊢
      simp only [List.length_append, List.length_cons] at hf
      rw [List.map_append, List.map_cons, List.append_assoc, List.cons_append, List.map_append,
        List.map_cons, List.append_assoc, List.cons_append]
      exact members?_more (ih _ List.mem_cons_self fuel _ (by simp only; omega)
        (closes_cons (by simp) _))
        (ihm (by simp) (fun i hi => ih i (by simp [hi])) fuel (by omega))

/-- Members whose names are texts make an object. -/
theorem ofMembers_some (members : List (String × Json)) :
    ofMembers (members.map fun m => (some m.1, m.2)) = .object members := by
  have h : ∀ {f : Option String × Json → Option (String × Json)},
      (∀ k v, f (some k, v) = some (k, v)) →
        (members.map fun m => (some m.1, m.2)).mapM f = some members := by
    intro f hf
    induction members with
    | nil => rfl
    | cons m ms ih =>
      rw [List.map_cons, List.mapM_cons, ih, hf]
      rfl
  unfold ofMembers
  rw [h fun _ _ => rfl]

/-- A word is read where it stands. -/
theorem word?_append (cs : List Char) (s : List Symbol) : word? cs (cs.map some ++ s) = some s := by
  induction cs with
  | nil => rfl
  | cons c cs ih => rw [List.map_cons, List.cons_append, word?, if_pos rfl, ih]

/-- The text of an array that is not empty starts with that of an item. -/
theorem exists_itemsChars {items : List Json} (hne : items ≠ []) (hp : ∀ j ∈ items, Plain j) :
    ∃ c cs, itemsChars items = c :: cs ∧ isSpace (some c) = false ∧ c ≠ ']' := by
  cases items with
  | nil => exact absurd rfl hne
  | cons j js =>
    obtain ⟨c, cs, hc, hs, hb, -⟩ := (hp j List.mem_cons_self).exists_cons
    cases js with
    | nil => exact ⟨c, cs, by rw [itemsChars, hc], hs, hb⟩
    | cons k ks =>
      refine ⟨c, cs ++ ',' :: itemsChars (k :: ks), ?_, hs, hb⟩
      rw [itemsChars, hc]
      · rfl
      · simp

/-- The first member of an object begins with a quote. -/
theorem exists_membersChars {members : List (String × Json)} (hne : members ≠ []) :
    ∃ cs, membersChars members = '"' :: cs := by
  match members with
  | [] => exact absurd rfl hne
  | [(k, v)] => exact ⟨_, by rw [membersChars]; rfl⟩
  | (k, v) :: m :: ms => exact ⟨_, by rw [membersChars] <;> simp [quote]; rfl⟩

/-- A value is written with at least one character. -/
theorem Plain.length_pos {j : Json} (h : Plain j) : 1 ≤ j.chars.length := by
  obtain ⟨c, cs, hc, -⟩ := h.exists_cons
  rw [hc, List.length_cons]
  exact Nat.le_add_left 1 cs.length

/-- **A value is read back from its text,** whatever follows it. -/
theorem value?_chars {j : Json} (h : Plain j) (fuel : Nat) (rest : List Symbol)
    (hf : j.chars.length ≤ fuel) (hr : Closes rest) :
    value? fuel (j.chars.map some ++ rest) = some (j, rest) := by
  obtain ⟨fuel, rfl⟩ := Nat.exists_eq_add_of_le' (Nat.le_trans h.length_pos hf)
  induction h generalizing fuel rest with
  | null =>
    rw [chars, List.map_cons, List.cons_append, value?, skip_some (by decide)]
    simp only [word?_append, Option.map_some]
  | bool b =>
    cases b <;>
    · rw [chars, List.map_cons, List.cons_append, value?, skip_some (by decide)]
      simp only [word?_append, Option.map_some]
  | @nat n hn =>
    obtain ⟨a, as, ha, hs, -, -⟩ := (Plain.nat hn).exists_cons
    have hc : (Json.nat n).chars = (Number.ofNat n).chars := by rw [Json.nat, chars]
    have hd : a.isDigit = true := by
      apply Text.isDigit_of_mem_numeral (n := n)
      have hm : (Number.ofNat n).chars = Text.numeral n := by simp [Number.chars, Number.ofNat]
      rw [← hm, ← hc, ha]
      exact List.mem_cons_self
    have hv := number?_ofNat hn hr
    rw [← hc, ha, List.map_cons, List.cons_append] at hv
    rw [ha, List.map_cons, List.cons_append, value?, skip_some hs]
    split <;> first | exact hv | skip
    all_goals
      rename_i heq
      rw [List.cons.injEq, Option.some.injEq] at heq
      rw [heq.1] at hd
      exact absurd hd (by decide)
  | text s =>
    obtain ⟨r, hr, ht⟩ := text?_quote s rest
    rw [chars, hr, value?, skip_some (by decide)]
    simp only [ht, Option.map_some]
  | @array items hi ih =>
    simp only [chars, List.map_cons, List.map_append, List.cons_append, List.append_assoc,
      List.map_nil, List.nil_append, List.length_append, List.length_cons, List.length_nil] at hf ⊢
    rw [value?, skip_some (by decide)]
    cases items with
    | nil => rfl
    | cons j js =>
      obtain ⟨c, cs, hc, hsp, hb⟩ := exists_itemsChars (by simp) hi
      have hit : items? fuel ((itemsChars (j :: js)).map some ++ some ']' :: rest) =
          some (j :: js, rest) := by
        refine items?_itemsChars (by simp) hi (fun i hi' fuel rest hf hr => ?_) fuel rest (by omega)
        obtain ⟨fuel, rfl⟩ := Nat.exists_eq_add_of_le' (Nat.le_trans (hi i hi').length_pos hf)
        exact ih i hi' rest hr fuel hf
      rw [hc, List.map_cons, List.cons_append] at hit ⊢
      simp only [skip_some hsp]
      split
      · rename_i heq
        rw [List.cons.injEq, Option.some.injEq] at heq
        exact absurd heq.1 hb
      · rw [hit]
        rfl
  | @object members hm ih =>
    simp only [chars, List.map_cons, List.map_append, List.cons_append, List.append_assoc,
      List.map_nil, List.nil_append, List.length_append, List.length_cons, List.length_nil] at hf ⊢
    rw [value?, skip_some (by decide)]
    cases members with
    | nil => rfl
    | cons m ms =>
      obtain ⟨cs, hc⟩ := @exists_membersChars (m :: ms) (by simp)
      have hit : members? fuel ((membersChars (m :: ms)).map some ++ some '}' :: rest) =
          some ((m :: ms).map fun m => (some m.1, m.2), rest) := by
        refine members?_membersChars (by simp) (fun i hi' fuel rest hf hr => ?_) fuel rest
          (by omega)
        obtain ⟨fuel, rfl⟩ := Nat.exists_eq_add_of_le' (Nat.le_trans (hm i hi').length_pos hf)
        exact ih i hi' rest hr fuel hf
      rw [hc, List.map_cons, List.cons_append] at hit ⊢
      simp only [skip_some (c := '"') (by decide)]
      split
      · rename_i heq
        rw [List.cons.injEq, Option.some.injEq] at heq
        exact absurd heq.1 (by decide)
      · rw [hit, Option.map_some, ofMembers_some]

/-- The text of a value spells that value. -/
theorem read?_chars {j : Json} (h : Plain j) : read? (j.chars.map some) = some j := by
  have hv := value?_chars h (2 * (j.chars.map some).length + 1) [] (by rw [List.length_map]; omega)
    closes_nil
  rw [List.append_nil] at hv
  rw [read?, hv]
  rfl

/-- **Bytes that spell the text of a value spell that value.** -/
theorem ofBytes?_encode {j : Json} (h : Plain j) : ofBytes? (Text.encode j.chars) = some j := by
  rw [ofBytes?, Text.symbols_encode, read?_chars h]

/-- Values with the same bytes are the same. -/
theorem eq_of_encode_eq {j k : Json} (hj : Plain j) (hk : Plain k)
    (h : Text.encode j.chars = Text.encode k.chars) : j = k := by
  have hr := ofBytes?_encode hj
  rw [h, ofBytes?_encode hk] at hr
  exact (Option.some.inj hr).symm

end Json
end CommitTimeline
