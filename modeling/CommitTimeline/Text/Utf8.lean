/-
# Text as bytes

`bytes` writes text in UTF-8. `symbols` reads any bytes: a well-formed sequence
becomes its character, a byte that belongs to none becomes `none`, so a reader
can step over bytes that are no text. Reading what was written gives the
characters back (`symbols_encode`).
-/

namespace CommitTimeline

/-- Contents of a stored object. -/
abbrev Bytes := List UInt8

namespace Text

/-- The continuation byte with the given six payload bits. -/
def continuation (n : Nat) : UInt8 :=
  (0x80 + n).toUInt8

/-- The UTF-8 sequence of one character. -/
def encodeChar (c : Char) : Bytes :=
  let n := c.toNat
  if n < 0x80 then [n.toUInt8]
  else if n < 0x800 then [(0xC0 + n / 64).toUInt8, continuation (n % 64)]
  else if n < 0x10000 then
    [(0xE0 + n / 64 / 64).toUInt8, continuation (n / 64 % 64), continuation (n % 64)]
  else
    [(0xF0 + n / 64 / 64 / 64).toUInt8, continuation (n / 64 / 64 % 64),
      continuation (n / 64 % 64), continuation (n % 64)]

/-- Characters as UTF-8. -/
def encode (s : List Char) : Bytes :=
  s.flatMap encodeChar

/-- Text as UTF-8. -/
def bytes (s : String) : Bytes :=
  encode s.toList

/-- The six payload bits of a continuation byte. -/
def continuation? (b : UInt8) : Option Nat :=
  if 0x80 ≤ b.toNat ∧ b.toNat < 0xC0 then some (b.toNat - 0x80) else none

/-- The character with code point `n`, if that is at least `least`, the first one
that needs a sequence of this length. -/
def charFrom? (least n : Nat) : Option Char :=
  if n.isValidChar ∧ least ≤ n then some (Char.ofNat n) else none

/-- The character of the sequence that starts at `a`, with the number of further
bytes it takes from `rest`. -/
def leading? (a : UInt8) (rest : Bytes) : Option (Char × Nat) :=
  let n := a.toNat
  if n < 0x80 then some (Char.ofNat n, 0)
  else if n < 0xC0 then none
  else if n < 0xE0 then do
    let x ← rest[0]? >>= continuation?
    let c ← charFrom? 0x80 ((n - 0xC0) * 64 + x)
    return (c, 1)
  else if n < 0xF0 then do
    let x ← rest[0]? >>= continuation?
    let y ← rest[1]? >>= continuation?
    let c ← charFrom? 0x800 (((n - 0xE0) * 64 + x) * 64 + y)
    return (c, 2)
  else if n < 0xF8 then do
    let x ← rest[0]? >>= continuation?
    let y ← rest[1]? >>= continuation?
    let z ← rest[2]? >>= continuation?
    let c ← charFrom? 0x10000 ((((n - 0xF0) * 64 + x) * 64 + y) * 64 + z)
    return (c, 3)
  else none

/-- Reads bytes as UTF-8 after the first `skip` of them. -/
def symbolsAfter : Nat → Bytes → List (Option Char)
  | _, [] => []
  | skip + 1, _ :: rest => symbolsAfter skip rest
  | 0, a :: rest =>
    match leading? a rest with
    | some (c, more) => some c :: symbolsAfter more rest
    | none => none :: symbolsAfter 0 rest

/-- Reads bytes as UTF-8; `none` stands for a byte that belongs to no character. -/
def symbols (bs : Bytes) : List (Option Char) :=
  symbolsAfter 0 bs

/-- A continuation byte gives back the six bits that it was made of. -/
theorem continuation?_continuation {n : Nat} (h : n < 64) :
    continuation? (continuation n) = some n := by
  have : (continuation n).toNat = 0x80 + n := by simp [continuation, Nat.toUInt8]; omega
  simp only [continuation?, this]
  rw [if_pos (by omega)]
  simp

/-- The code point of a character gives it back, if it is not below the least one allowed. -/
theorem charFrom?_toNat {least : Nat} {c : Char} (h : least ≤ c.toNat) :
    charFrom? least c.toNat = some c := by
  have hv : c.toNat.isValidChar := c.valid
  rw [charFrom?, if_pos ⟨hv, h⟩, Char.ofNat_toNat]

/-- The encoding of a character is read as this character, whatever comes after it. -/
theorem leading?_encodeChar {c : Char} {a : UInt8} {more : Bytes} (h : encodeChar c = a :: more)
    (rest : Bytes) : leading? a (more ++ rest) = some (c, more.length) := by
  have hlt : c.toNat < 0x110000 := by
    have := c.valid
    simp only [UInt32.isValidChar, Nat.isValidChar, Char.toNat] at *
    omega
  have h8 : ∀ k, k < 256 → k.toUInt8.toNat = k := fun k hk => by simp [Nat.toUInt8]; omega
  have low : c.toNat % 64 < 64 := Nat.mod_lt _ (by decide)
  have mid : c.toNat / 64 % 64 < 64 := Nat.mod_lt _ (by decide)
  have high : c.toNat / 64 / 64 % 64 < 64 := Nat.mod_lt _ (by decide)
  unfold encodeChar at h
  simp only at h
  split at h
  · simp only [List.cons.injEq] at h
    obtain ⟨rfl, rfl⟩ := h
    simp only [leading?, h8 _ (by omega : c.toNat < 256)]
    rw [if_pos (by assumption)]
    simp [Char.ofNat_toNat]
  split at h
  · simp only [List.cons.injEq] at h
    obtain ⟨rfl, rfl⟩ := h
    simp only [leading?, h8 _ (by omega : 0xC0 + c.toNat / 64 < 256)]
    rw [if_neg (by omega), if_neg (by omega), if_pos (by omega)]
    have : c.toNat / 64 * 64 + c.toNat % 64 = c.toNat := by omega
    simp [continuation?_continuation low, this, charFrom?_toNat (by omega : 0x80 ≤ c.toNat)]
  split at h
  · simp only [List.cons.injEq] at h
    obtain ⟨rfl, rfl⟩ := h
    simp only [leading?, h8 _ (by omega : 0xE0 + c.toNat / 64 / 64 < 256)]
    rw [if_neg (by omega), if_neg (by omega), if_neg (by omega), if_pos (by omega)]
    have : (c.toNat / 64 / 64 * 64 + c.toNat / 64 % 64) * 64 + c.toNat % 64 = c.toNat := by omega
    simp [continuation?_continuation low, continuation?_continuation mid, this,
      charFrom?_toNat (by omega : 0x800 ≤ c.toNat)]
  · simp only [List.cons.injEq] at h
    obtain ⟨rfl, rfl⟩ := h
    simp only [leading?, h8 _ (by omega : 0xF0 + c.toNat / 64 / 64 / 64 < 256)]
    rw [if_neg (by omega), if_neg (by omega), if_neg (by omega), if_neg (by omega),
      if_pos (by omega)]
    have : ((c.toNat / 64 / 64 / 64 * 64 + c.toNat / 64 / 64 % 64) * 64 + c.toNat / 64 % 64) * 64
        + c.toNat % 64 = c.toNat := by omega
    simp [continuation?_continuation low, continuation?_continuation mid,
      continuation?_continuation high, this, charFrom?_toNat (by omega : 0x10000 ≤ c.toNat)]

/-- Bytes that are to be skipped do not matter. -/
theorem symbolsAfter_append (skipped rest : Bytes) :
    symbolsAfter skipped.length (skipped ++ rest) = symbolsAfter 0 rest := by
  induction skipped with
  | nil => rfl
  | cons a r ih => simpa [symbolsAfter] using ih

/-- Every character is encoded by at least one byte. -/
theorem encodeChar_ne_nil (c : Char) : encodeChar c ≠ [] := by
  unfold encodeChar
  simp only
  repeat' split
  all_goals simp

/-- **Reading undoes writing:** UTF-8 that spells characters is read as them. -/
theorem symbols_encode (s : List Char) : symbols (encode s) = s.map some := by
  induction s with
  | nil => rfl
  | cons c r ih =>
    simp only [encode, List.flatMap_cons, symbols, List.map_cons] at *
    obtain ⟨a, more, h⟩ := List.exists_cons_of_ne_nil (encodeChar_ne_nil c)
    rw [h, List.cons_append, symbolsAfter, leading?_encodeChar h]
    simp only
    rw [symbolsAfter_append, ih]

/-- The text that bytes spell, if they are UTF-8 throughout. -/
def ofBytes? (bs : Bytes) : Option String :=
  ((symbols bs).mapM id).map String.ofList

end Text
end CommitTimeline
