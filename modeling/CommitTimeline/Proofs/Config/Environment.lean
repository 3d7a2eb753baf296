/-
# What the environment configures

What a variable tells is its value without the blanks around it; a variable that is not set tells
nothing, like a blank one. Each of the three variables sets its part of the configuration to what
it spells, and to the standard if it says nothing (`Config.setting_eq_ok_iff`), or it is malformed
(`Config.isMalformed_iff`).

So a configuration comes out just if no variable is malformed and no threshold is zero, and then it
is the one that the variables denote (`Config.environment_configures`).
-/

import CommitTimeline.Config.Environment
import CommitTimeline.Proofs.Config.Codec
import CommitTimeline.Proofs.Text.Reading

namespace CommitTimeline
namespace Config

variable {α : Type} {lookup : String → Option String} {v : Option String}
variable {s t : List Char} {b : Bool} {a : α} {c d : Config} {e : Error}

/-- What is done after a step succeeds only if the step does. -/
theorem bind_eq_ok_iff {β : Type} {x : Except Error α} {f : α → Except Error β} {r : β} :
    (x >>= f) = .ok r ↔ ∃ a, x = .ok a ∧ f a = .ok r := by
  cases x with
  | error e => exact iff_of_false nofun fun ⟨_, h, _⟩ => nomatch h
  | ok a => exact ⟨fun h => ⟨a, rfl, h⟩, fun ⟨_, h, hr⟩ => Except.ok.inj h ▸ hr⟩

/-- Either a step fails, or what is done after it. -/
theorem bind_eq_error {β : Type} {x : Except Error α} {f : α → Except Error β}
    (h : (x >>= f) = .error e) : x = .error e ∨ ∃ a, f a = .error e := by
  cases x with
  | error e' => exact .inl (congrArg _ (Except.error.inj h))
  | ok a => exact .inr ⟨a, h⟩

/-- The variable is set to the text, with any blanks around it. -/
def IsSetTo (v : Option String) (s : List Char) : Prop :=
  ∃ text, v = some text ∧ Text.Encloses text.toList s

/-- The variable tells the text: that is its value without the blanks around it, and nothing at
all if it is not set. -/
def Tells (v : Option String) (s : List Char) : Prop :=
  Text.IsTrimmed s ∧ (IsSetTo v s ∨ v = none ∧ s = [])

/-- What a value tells is what is left of it without the blanks around it. -/
theorem tells_iff : Tells v s ↔ (trimmed? v).getD [] = s := by
  cases v with
  | none =>
    constructor
    · rintro ⟨-, ⟨text, h, -⟩ | ⟨-, rfl⟩⟩
      · cases h
      · rfl
    · rintro rfl
      exact ⟨Text.isTrimmed_of_forall nofun, .inr ⟨rfl, rfl⟩⟩
  | some text =>
    have htrimmed : (trimmed? (some text)).getD [] = Text.trim text.toList := by
      show (if Text.trim text.toList = [] then none else some (Text.trim text.toList)).getD [] = _
      split
      · rename_i hnil
        exact hnil.symm
      · rfl
    rw [htrimmed, Text.trim_eq_iff]
    constructor
    · rintro ⟨ht, ⟨_, ⟨⟩, h⟩ | ⟨⟨⟩, -⟩⟩
      exact ⟨ht, h⟩
    · rintro ⟨ht, h⟩
      exact ⟨ht, .inl ⟨text, rfl, h⟩⟩

/-- Every value tells something, and one that is not set tells nothing. -/
theorem exists_tells (v : Option String) : ∃ s, Tells v s :=
  ⟨_, tells_iff.2 rfl⟩

/-- A value tells one thing only. -/
theorem Tells.unique (hs : Tells v s) (ht : Tells v t) : s = t :=
  (tells_iff.1 hs).symm.trans (tells_iff.1 ht)

/-- A text that is not empty is what is left of a value, and nothing else is. -/
theorem Tells.trimmed?_eq (h : Tells v s) : trimmed? v = if s = [] then none else some s := by
  have hne : trimmed? v ≠ some [] := by
    cases v with
    | none => exact nofun
    | some text =>
      show (if Text.trim text.toList = [] then none else some (Text.trim text.toList)) ≠ _
      split
      · exact nofun
      · rename_i hne
        exact fun h => hne (Option.some.inj h)
  rw [tells_iff] at h
  cases hv : trimmed? v with
  | none =>
    rw [hv] at h
    exact (if_pos h.symm).symm
  | some t =>
    rw [hv] at h hne
    obtain rfl : t = s := h
    exact (if_neg fun hnil => hne (congrArg some hnil)).symm

/-- A part of the configuration is what the variable spells, and the standard if it says
nothing. -/
def Sets (v : Option String) (unset : α) (Spells : List Char → α → Prop) (a : α) : Prop :=
  ∃ s, Tells v s ∧ if s = [] then a = unset else Spells s a

/-- The variable says something, but spells nothing by it. -/
def IsMalformed (v : Option String) (Spells : List Char → α → Prop) : Prop :=
  ∃ s, Tells v s ∧ s ≠ [] ∧ ∀ a, ¬ Spells s a

/-- A part of the configuration from its variable. -/
def setting (name : String) (v : Option String) (unset : α)
    (read : List Char → Except String α) : Except Error α :=
  match trimmed? v with
  | none => .ok unset
  | some s => (read s).mapError fun reason => .invalidConfig (name ++ reason)

section Setting

variable {name : String} {unset : α} {read : List Char → Except String α}
variable {Spells : List Char → α → Prop}

/-- A variable that tells nothing is as if it were not set, and any other is read. -/
theorem setting_of_tells (h : Tells v s) : setting name v unset read =
    if s = [] then .ok unset
    else (read s).mapError fun reason => .invalidConfig (name ++ reason) := by
  rw [setting, h.trimmed?_eq]
  by_cases hs : s = []
  · rw [if_pos hs, if_pos hs]
  · rw [if_neg hs, if_neg hs]

/-- What follows is done in each of the cases. -/
theorem setting_bind {β : Type} (k : α → Except Error β) : setting name v unset read >>= k =
    match trimmed? v with
    | none => .ok unset >>= k
    | some s => ((read s).mapError fun reason => .invalidConfig (name ++ reason)) >>= k := by
  rw [setting]
  cases trimmed? v <;> rfl

/-- **A variable sets what it spells.** -/
theorem setting_eq_ok_iff (hread : ∀ s a, read s = .ok a ↔ Spells s a) :
    setting name v unset read = .ok a ↔ Sets v unset Spells a := by
  obtain ⟨s, hs⟩ := exists_tells v
  have hsets : Sets v unset Spells a ↔ if s = [] then a = unset else Spells s a :=
    ⟨fun ⟨_, ht, h⟩ => hs.unique ht ▸ h, fun h => ⟨s, hs, h⟩⟩
  rw [hsets, setting_of_tells hs]
  split
  · exact ⟨fun h => (Except.ok.inj h).symm, fun h => congrArg _ h.symm⟩
  · rw [← hread]
    cases read s with
    | ok a' => simp only [Except.mapError, Except.ok.injEq]
    | error reason => exact iff_of_false nofun nofun

/-- A variable sets one value at most, if there is a way to read what it spells. -/
theorem Sets.unique (hread : ∀ s a, read s = .ok a ↔ Spells s a) {a' : α}
    (h : Sets v unset Spells a) (h' : Sets v unset Spells a') : a = a' := by
  have hset : setting "" v unset read = .ok a := (setting_eq_ok_iff hread).2 h
  exact Except.ok.inj (hset.symm.trans ((setting_eq_ok_iff hread).2 h'))

/-- A setting fails only as a configuration error that begins with its variable. -/
theorem setting_eq_error (h : setting name v unset read = .error e) :
    ∃ reason, e = .invalidConfig (name ++ reason) := by
  obtain ⟨s, hs⟩ := exists_tells v
  rw [setting_of_tells hs] at h
  split at h
  · cases h
  · cases hr : read s with
    | ok a =>
      rw [hr] at h
      cases h
    | error reason =>
      rw [hr] at h
      exact ⟨reason, (Except.error.inj h).symm⟩

/-- **A variable is malformed just if it sets nothing.** -/
theorem isMalformed_iff : IsMalformed v Spells ↔ ∀ a, ¬ Sets v unset Spells a := by
  constructor
  · rintro ⟨s, hs, hne, h⟩ a ⟨t, ht, hset⟩
    obtain rfl := ht.unique hs
    rw [if_neg hne] at hset
    exact h a hset
  · intro h
    obtain ⟨s, hs⟩ := exists_tells v
    have hne : s ≠ [] := by
      rintro rfl
      exact h unset ⟨[], hs, rfl⟩
    exact ⟨s, hs, hne, fun a ha => h a ⟨s, hs, (if_neg hne).symm ▸ ha⟩⟩

/-- What is not malformed sets something. -/
theorem exists_sets (unset : α) (h : ¬ IsMalformed v Spells) : ∃ a, Sets v unset Spells a := by
  by_contra hnone
  exact h (isMalformed_iff.2 fun a ha => hnone ⟨a, ha⟩)

/-- A value that is spelled out sets what it spells. -/
theorem Sets.of_isSetTo (h : IsSetTo v s) (ht : Text.IsTrimmed s) (hne : s ≠ [])
    (ha : Spells s a) : Sets v unset Spells a :=
  ⟨s, ⟨ht, .inl h⟩, (if_neg hne).symm ▸ ha⟩

end Setting

/-- The spellings of a truth value in small letters. -/
def words : Bool → List String
  | true => ["true", "1", "yes", "y"]
  | false => ["false", "0", "no", "n"]

/-- The text is a spelling of a truth value, in small letters or large ones. -/
def SpellsFlag (s : List Char) (b : Bool) : Prop :=
  String.ofList (s.map Char.toLower) ∈ words b

instance (s : List Char) (b : Bool) : Decidable (SpellsFlag s b) :=
  inferInstanceAs (Decidable (_ ∈ _))

/-- The text is a numeral of a count. -/
def SpellsCount (s : List Char) (n : UInt32) : Prop :=
  Text.IsNumeral n.toNat s

/-- The text is a numeral of the seconds of a time. -/
def SpellsTime (s : List Char) (d : Duration) : Prop :=
  ∃ n : UInt64, Text.IsNumeral n.toNat s ∧ d = .ofSeconds n

/-- The configuration is what the variables set, each of them its part. -/
structure Denotes (lookup : String → Option String) (c : Config) : Prop where
  flag : Sets (lookup inlineVariable) standard.isInline SpellsFlag c.isInline
  count : Sets (lookup commitsVariable) standard.maxDeltaCommits SpellsCount c.maxDeltaCommits
  time : Sets (lookup secondsVariable) standard.maxDeltaTime SpellsTime c.maxDeltaTime

/-- A flag is what a word spells. -/
theorem flag?_eq_some_iff : flag? s = some b ↔ SpellsFlag s b := by
  have hdisjoint : ∀ word ∈ words true, word ∉ words false := by decide
  unfold flag? SpellsFlag
  generalize String.ofList (s.map Char.toLower) = word
  have htrue : ["true", "1", "yes", "y"].contains word = true ↔ word ∈ words true :=
    List.contains_iff_mem
  have hfalse : ["false", "0", "no", "n"].contains word = true ↔ word ∈ words false :=
    List.contains_iff_mem
  simp only [htrue, hfalse]
  split
  · rename_i h
    cases b with
    | true => exact iff_of_true rfl h
    | false => exact iff_of_false nofun (hdisjoint word h)
  · rename_i h
    split
    · rename_i h'
      cases b with
      | true => exact iff_of_false nofun h
      | false => exact iff_of_true rfl h'
    · rename_i h'
      cases b with
      | true => exact iff_of_false nofun h
      | false => exact iff_of_false nofun h'

/-- A truth value, or what to say of a text that spells none. -/
def readFlag (s : List Char) : Except String Bool :=
  match flag? s with
  | some b => .ok b
  | none => .error " must be a boolean (true/false/1/0)"

/-- A count, or what to say of a text that spells none. -/
def readCount (s : List Char) : Except String UInt32 :=
  match Text.readUpTo (UInt32.size - 1) s with
  | .ok n => .ok n.toUInt32
  | .error fault => .error (" must be a u32: " ++ fault.message)

/-- A time, or what to say of a text that spells none. -/
def readTime (s : List Char) : Except String Duration :=
  match Text.readUpTo (UInt64.size - 1) s with
  | .ok n => .ok (.ofSeconds n.toUInt64)
  | .error fault => .error (" must be a u64: " ++ fault.message)

/-- The configuration is made of the three settings, in this order, and then checked. -/
theorem ofLookup_eq (lookup : String → Option String) : ofLookup lookup = do
    let isInline ← setting inlineVariable (lookup inlineVariable) standard.isInline readFlag
    let maxDeltaCommits ←
      setting commitsVariable (lookup commitsVariable) standard.maxDeltaCommits readCount
    let maxDeltaTime ←
      setting secondsVariable (lookup secondsVariable) standard.maxDeltaTime readTime
    let config : Config := ⟨isInline, maxDeltaCommits, maxDeltaTime⟩
    config.validate
    return config := by
  have hflag : ∀ (s : List Char) (k : Bool → Except Error Config),
      ((readFlag s).mapError fun reason => .invalidConfig (inlineVariable ++ reason)) >>= k =
        match flag? s with
        | some b => .ok b >>= k
        | none =>
          .error (.invalidConfig
            (inlineVariable ++ " must be a boolean (true/false/1/0)")) >>= k := by
    intro s k
    rw [readFlag]
    cases flag? s <;> rfl
  have hcount : ∀ (s : List Char) (k : UInt32 → Except Error Config),
      ((readCount s).mapError fun reason => .invalidConfig (commitsVariable ++ reason)) >>= k =
        match Text.readUpTo (UInt32.size - 1) s with
        | .ok n => .ok n.toUInt32 >>= k
        | .error fault =>
          .error (.invalidConfig
            (commitsVariable ++ " must be a u32: " ++ fault.message)) >>= k := by
    intro s k
    simp only [readCount, String.append_assoc]
    cases Text.readUpTo (UInt32.size - 1) s <;> rfl
  have htime : ∀ (s : List Char) (k : Duration → Except Error Config),
      ((readTime s).mapError fun reason => .invalidConfig (secondsVariable ++ reason)) >>= k =
        match Text.readUpTo (UInt64.size - 1) s with
        | .ok n => .ok (.ofSeconds n.toUInt64) >>= k
        | .error fault =>
          .error (.invalidConfig
            (secondsVariable ++ " must be a u64: " ++ fault.message)) >>= k := by
    intro s k
    simp only [readTime, String.append_assoc]
    cases Text.readUpTo (UInt64.size - 1) s <;> rfl
  -- the look-up goes on in each branch, so what follows a setting is brought into its branches
  simp only [setting_bind, hflag, hcount, htime]
  rfl

/-- A flag is read just if a word spells it. -/
theorem readFlag_eq_ok_iff (s : List Char) (b : Bool) : readFlag s = .ok b ↔ SpellsFlag s b := by
  rw [← flag?_eq_some_iff, readFlag]
  cases flag? s with
  | none => exact iff_of_false nofun nofun
  | some b' => simp only [Except.ok.injEq, Option.some.injEq]

/-- A count is read just if a numeral spells it that fits 32 bits. -/
theorem readCount_eq_ok_iff (s : List Char) (n : UInt32) :
    readCount s = .ok n ↔ SpellsCount s n := by
  have hread : Text.readUpTo (UInt32.size - 1) s = .ok n.toNat ↔ SpellsCount s n := by
    rw [Text.readUpTo_eq_ok_iff, SpellsCount]
    exact and_iff_left (Nat.le_sub_one_of_lt n.toNat_lt_size)
  rw [← hread, readCount]
  cases h : Text.readUpTo (UInt32.size - 1) s with
  | error fault => exact iff_of_false nofun nofun
  | ok m =>
    have hm : m < UInt32.size := Nat.lt_of_le_pred (by decide) (Text.readUpTo_eq_ok_iff.1 h).2
    simp only [Except.ok.injEq]
    constructor
    · rintro rfl
      exact (UInt32.toNat_ofNat_of_lt' hm).symm
    · rintro rfl
      exact UInt32.ofNat_toNat

/-- A time is read just if a numeral spells its seconds. -/
theorem readTime_eq_ok_iff (s : List Char) (d : Duration) :
    readTime s = .ok d ↔ SpellsTime s d := by
  have hread : ∀ n : UInt64, Text.readUpTo (UInt64.size - 1) s = .ok n.toNat ↔
      Text.IsNumeral n.toNat s := by
    intro n
    rw [Text.readUpTo_eq_ok_iff]
    exact and_iff_left (Nat.le_sub_one_of_lt n.toNat_lt_size)
  simp only [SpellsTime, ← hread, readTime]
  cases h : Text.readUpTo (UInt64.size - 1) s with
  | error fault => exact iff_of_false nofun fun ⟨_, h, _⟩ => nomatch h
  | ok m =>
    have hm : m < UInt64.size := Nat.lt_of_le_pred (by decide) (Text.readUpTo_eq_ok_iff.1 h).2
    simp only [Except.ok.injEq]
    constructor
    · rintro rfl
      exact ⟨m.toUInt64, (UInt64.toNat_ofNat_of_lt' hm).symm, rfl⟩
    · rintro ⟨n, rfl, rfl⟩
      exact congrArg Duration.ofSeconds UInt64.ofNat_toNat

/-- **A configuration comes out just if the variables denote it and it is valid.** -/
theorem ofLookup_eq_ok_iff : ofLookup lookup = .ok c ↔ Denotes lookup c ∧ c.validate = .ok () := by
  simp only [ofLookup_eq, bind_eq_ok_iff, setting_eq_ok_iff readFlag_eq_ok_iff,
    setting_eq_ok_iff readCount_eq_ok_iff, setting_eq_ok_iff readTime_eq_ok_iff]
  constructor
  · rintro ⟨isInline, hflag, commits, hcount, time, htime, _, hvalid, ⟨⟩⟩
    exact ⟨⟨hflag, hcount, htime⟩, hvalid⟩
  · rintro ⟨⟨hflag, hcount, htime⟩, hvalid⟩
    exact ⟨_, hflag, _, hcount, _, htime, (), hvalid, rfl⟩

/-- A check fails only as a configuration error. -/
theorem validate_eq_error (h : c.validate = .error e) : ∃ text, e = .invalidConfig text := by
  unfold validate at h
  split at h
  · exact ⟨_, (Except.error.inj h).symm⟩
  · split at h
    · exact ⟨_, (Except.error.inj h).symm⟩
    · cases h

/-- The environment denotes one configuration only. -/
theorem Denotes.unique (hc : Denotes lookup c) (hd : Denotes lookup d) : c = d := by
  have hflag := hc.flag.unique readFlag_eq_ok_iff hd.flag
  have hcount := hc.count.unique readCount_eq_ok_iff hd.count
  have htime := hc.time.unique readTime_eq_ok_iff hd.time
  exact Config.mk.injEq .. ▸ ⟨hflag, hcount, htime⟩

/-- Nothing but an invalid configuration is ever reported. -/
theorem ofLookup_eq_error (h : ofLookup lookup = .error e) : ∃ text, e = .invalidConfig text := by
  rw [ofLookup_eq] at h
  rcases bind_eq_error h with h | ⟨isInline, h⟩
  · exact (setting_eq_error h).imp' _ fun _ => id
  rcases bind_eq_error h with h | ⟨commits, h⟩
  · exact (setting_eq_error h).imp' _ fun _ => id
  rcases bind_eq_error h with h | ⟨time, h⟩
  · exact (setting_eq_error h).imp' _ fun _ => id
  rcases bind_eq_error h with h | ⟨_, h⟩
  · exact validate_eq_error h
  · cases h

/-- One of the variables says something and spells nothing by it. -/
def HasMalformed (lookup : String → Option String) : Prop :=
  IsMalformed (lookup inlineVariable) SpellsFlag ∨
    IsMalformed (lookup commitsVariable) SpellsCount ∨
    IsMalformed (lookup secondsVariable) SpellsTime

/-- The look-up is reported to be an invalid configuration. -/
def IsRejected (lookup : String → Option String) : Prop :=
  ∃ text, ofLookup lookup = .error (.invalidConfig text)

/-- The environment is rejected just if it denotes no configuration that passes the check. -/
theorem isRejected_iff : IsRejected lookup ↔ ∀ c, ¬ (Denotes lookup c ∧ c.validate = .ok ()) := by
  cases h : ofLookup lookup with
  | ok c =>
    refine iff_of_false (fun ⟨_, he⟩ => ?_) fun hnone => hnone c (ofLookup_eq_ok_iff.1 h)
    cases h.symm.trans he
  | error e =>
    obtain ⟨text, rfl⟩ := ofLookup_eq_error h
    refine iff_of_true ⟨text, h⟩ fun c hc => ?_
    cases h.symm.trans (ofLookup_eq_ok_iff.2 hc)

/-- An environment with a malformed variable denotes nothing. -/
theorem HasMalformed.not_denotes (h : HasMalformed lookup) : ¬ Denotes lookup c := by
  intro hc
  rcases h with h | h | h
  · exact isMalformed_iff.1 h _ hc.flag
  · exact isMalformed_iff.1 h _ hc.count
  · exact isMalformed_iff.1 h _ hc.time

/-- An environment without a malformed variable denotes a configuration. -/
theorem exists_denotes (h : ¬ HasMalformed lookup) : ∃ c, Denotes lookup c := by
  obtain ⟨isInline, hflag⟩ := exists_sets standard.isInline fun hm => h (.inl hm)
  obtain ⟨commits, hcount⟩ := exists_sets standard.maxDeltaCommits fun hm => h (.inr (.inl hm))
  obtain ⟨time, htime⟩ := exists_sets standard.maxDeltaTime fun hm => h (.inr (.inr hm))
  exact ⟨⟨isInline, commits, time⟩, hflag, hcount, htime⟩

/-- **Rejected is what is malformed, and what sets a threshold to zero.** -/
theorem isRejected_iff_malformed : IsRejected lookup ↔ HasMalformed lookup ∨
    ∃ c, Denotes lookup c ∧ (c.maxDeltaCommits = 0 ∨ c.maxDeltaTime.nanoseconds = 0) := by
  have hzero : ∀ c : Config, ¬ c.validate = .ok () ↔
      c.maxDeltaCommits = 0 ∨ c.maxDeltaTime.nanoseconds = 0 := by
    intro c
    rw [validate_eq_ok_iff, IsValid, not_and_or, not_ne_iff, not_ne_iff]
  rw [isRejected_iff]
  constructor
  · intro h
    by_cases hm : HasMalformed lookup
    · exact .inl hm
    · obtain ⟨c, hc⟩ := exists_denotes hm
      exact .inr ⟨c, hc, (hzero c).1 fun hvalid => h c ⟨hc, hvalid⟩⟩
  · rintro (hm | ⟨c, hc, h⟩) d ⟨hd, hvalid⟩
    · exact hm.not_denotes hd
    · obtain rfl := hc.unique hd
      exact (hzero c).2 h hvalid

/-- What is said of a number and is no numeral of a number up to the limit is malformed. -/
theorem isMalformed_of_not_isNumeral {Spells : List Char → α → Prop} {size : Nat} (h : Tells v s)
    (hspells : ∀ a, Spells s a → ∃ n, n < size ∧ Text.IsNumeral n s)
    (hs : (∃ n, size ≤ n ∧ Text.IsNumeral n s) ∨ Text.HasForeign s) : IsMalformed v Spells := by
  refine ⟨s, h, ?_, fun a ha => ?_⟩
  · rintro rfl
    rcases hs with ⟨n, -, hn⟩ | ⟨before, c, after, hnil, -⟩
    · exact hn.ne_nil rfl
    · cases before <;> cases hnil
  · obtain ⟨n, hlt, hn⟩ := hspells a ha
    rcases hs with ⟨m, hle, hm⟩ | hforeign
    · exact absurd (hn.unique hm ▸ hlt) (Nat.not_lt.2 hle)
    · exact hforeign.not_isNumeral hn

/-- A flag is spelled with some letters. -/
theorem SpellsFlag.ne_nil (h : SpellsFlag s b) : s ≠ [] := by
  have hwords : ∀ b, String.ofList [] ∉ words b := by decide
  rintro rfl
  exact hwords b h

/-- A flag is spelled without blanks around it. -/
theorem SpellsFlag.isTrimmed (h : SpellsFlag s b) : Text.IsTrimmed s := by
  have hwords : ∀ b, ∀ word ∈ words b, word.toList.any Text.isBlank = false := by decide
  refine Text.isTrimmed_of_forall fun c hc => ?_
  have hlower : Text.isBlank c.toLower = false := by
    refine Bool.eq_false_iff.2 (List.any_eq_false.1 (hwords b _ h) _ ?_)
    rw [String.toList_ofList]
    exact List.mem_map_of_mem hc
  by_contra hblank
  rw [Bool.not_eq_false] at hblank
  rw [Text.toLower_of_isBlank hblank] at hlower
  exact Bool.false_ne_true (hlower.symm.trans hblank)

/-- **What the environment configures.** Only what the variables say counts. A configuration
that comes out is the one they denote, and valid; otherwise the look-up is rejected, which is so
just if a variable is malformed or a threshold is zero. Every spelling of a truth value and all
numerals of positive numbers within the limits, with blanks around them, are understood, and what
is beyond the limits or holds another character is rejected. -/
theorem environment_configures (lookup : String → Option String) :
    (∀ lookup' : String → Option String,
      (∀ name ∈ [inlineVariable, commitsVariable, secondsVariable],
        ∃ s, Tells (lookup name) s ∧ Tells (lookup' name) s) → ofLookup lookup' = ofLookup lookup) ∧
    (∀ c, ofLookup lookup = .ok c ↔ Denotes lookup c ∧ c.validate = .ok ()) ∧
    (∀ e, ofLookup lookup = .error e → ∃ text, e = .invalidConfig text) ∧
    (IsRejected lookup ↔ HasMalformed lookup ∨
      ∃ c, Denotes lookup c ∧ (c.maxDeltaCommits = 0 ∨ c.maxDeltaTime.nanoseconds = 0)) ∧
    (∀ (b : Bool) (n : UInt32) (k : UInt64) (flag count time : List Char), n ≠ 0 → k ≠ 0 →
      SpellsFlag flag b → IsSetTo (lookup inlineVariable) flag →
      Text.IsNumeral n.toNat count → IsSetTo (lookup commitsVariable) count →
      Text.IsNumeral k.toNat time → IsSetTo (lookup secondsVariable) time →
      ofLookup lookup = .ok ⟨b, n, .ofSeconds k⟩) ∧
    (∀ s, Tells (lookup commitsVariable) s →
      (∃ n, UInt32.size ≤ n ∧ Text.IsNumeral n s) ∨ Text.HasForeign s → IsRejected lookup) ∧
    ∀ s, Tells (lookup secondsVariable) s →
      (∃ n, UInt64.size ≤ n ∧ Text.IsNumeral n s) ∨ Text.HasForeign s → IsRejected lookup := by
  refine ⟨?_, fun c => ofLookup_eq_ok_iff, fun e => ofLookup_eq_error, isRejected_iff_malformed,
    ?_, ?_, ?_⟩
  · intro lookup' h
    have htrimmed : ∀ name ∈ [inlineVariable, commitsVariable, secondsVariable],
        trimmed? (lookup' name) = trimmed? (lookup name) := by
      intro name hname
      obtain ⟨s, hs, hs'⟩ := h name hname
      rw [hs.trimmed?_eq, hs'.trimmed?_eq]
    simp only [List.forall_mem_cons, List.not_mem_nil, false_imp_iff, implies_true, and_true]
      at htrimmed
    obtain ⟨hflag, hcount, htime⟩ := htrimmed
    unfold ofLookup
    rw [hflag, hcount, htime]
  · intro b n k flag count time hn hk hflag hsetflag hcount hsetcount htime hsettime
    refine ofLookup_eq_ok_iff.2 ⟨⟨?_, ?_, ?_⟩, ?_⟩
    · exact .of_isSetTo hsetflag hflag.isTrimmed hflag.ne_nil hflag
    · exact .of_isSetTo hsetcount hcount.isTrimmed hcount.ne_nil hcount
    · exact .of_isSetTo hsettime htime.isTrimmed htime.ne_nil ⟨k, htime, rfl⟩
    · have hpos : k.toNat ≠ 0 := fun h => hk (UInt64.toNat_inj.1 h)
      have hlong : (Duration.ofSeconds k).nanoseconds = k.toNat * 1000000000 := rfl
      exact validate_eq_ok_iff.2 ⟨hn, by rw [hlong]; omega⟩
  · intro s hs h
    refine isRejected_iff_malformed.2 (.inl (.inr (.inl ?_)))
    exact isMalformed_of_not_isNumeral hs (fun n hn => ⟨_, n.toNat_lt_size, hn⟩) h
  · intro s hs h
    refine isRejected_iff_malformed.2 (.inl (.inr (.inr ?_)))
    refine isMalformed_of_not_isNumeral hs ?_ h
    rintro d ⟨n, hn, -⟩
    exact ⟨_, n.toNat_lt_size, hn⟩

/-- Blanks, large letters, a plus sign and zeros in front do not matter. -/
theorem environment_configures_of_blanks :
    ∃ lookup : String → Option String, lookup inlineVariable = some " YES\t" ∧
      lookup commitsVariable = some "+0012\n" ∧ lookup secondsVariable = some "  090" ∧
      ofLookup lookup = .ok ⟨true, 12, .ofSeconds 90⟩ := by
  let lookup : String → Option String := fun name =>
    if name = inlineVariable then some " YES\t"
    else if name = commitsVariable then some "+0012\n" else some "  090"
  have hflag : IsSetTo (lookup inlineVariable) ['Y', 'E', 'S'] :=
    ⟨" YES\t", rfl, [' '], ['\t'], by decide, List.all_eq_true.1 rfl, List.all_eq_true.1 rfl⟩
  have hcount : IsSetTo (lookup commitsVariable) ['+', '0', '0', '1', '2'] :=
    ⟨"+0012\n", rfl, [], ['\n'], by decide, List.all_eq_true.1 rfl, List.all_eq_true.1 rfl⟩
  have htime : IsSetTo (lookup secondsVariable) ['0', '9', '0'] :=
    ⟨"  090", rfl, [' ', ' '], [], by decide, List.all_eq_true.1 rfl, List.all_eq_true.1 rfl⟩
  have htwelve : Text.IsNumeral (12 : UInt32).toNat ['+', '0', '0', '1', '2'] :=
    Text.isNumeral_iff.2
      ⟨['0', '0', '1', '2'], by decide, List.all_eq_true.1 rfl, by decide, .inr rfl⟩
  have hninety : Text.IsNumeral (90 : UInt64).toNat ['0', '9', '0'] :=
    Text.isNumeral_iff.2 ⟨['0', '9', '0'], by decide, List.all_eq_true.1 rfl, by decide, .inl rfl⟩
  obtain ⟨-, -, -, -, hread, -⟩ := environment_configures lookup
  refine ⟨lookup, rfl, rfl, rfl, ?_⟩
  exact hread true 12 90 _ _ _ (by decide) (by decide) (by decide) hflag htwelve hcount hninety
    htime

end Config
end CommitTimeline
