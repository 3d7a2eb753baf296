/-
# What JSON keeps of a configuration

The JSON of a configuration counts its time in whole seconds. So every configuration can be
read again, and what is read has the same threshold of delta commits and its time cut to whole
seconds (`Config.decode?_encode`). It is the same configuration just if nothing was cut off, and a
valid one just if a second was left (`Config.round_trip_in_seconds`). Of half a second nothing is
left (`Config.not_round_trip`).
-/

import CommitTimeline.Config.Codec
import CommitTimeline.Proofs.Marker.RoundTrip

namespace CommitTimeline

namespace Duration

variable {d : Duration}

/-- The whole seconds of a duration fit in 64 bits. -/
theorem seconds_lt (d : Duration) : d.seconds < UInt64.size :=
  Nat.div_lt_of_lt_mul (Nat.mul_comm _ _ ▸ d.bounded)

/-- A duration without what goes beyond its whole seconds. -/
def truncated (d : Duration) : Duration :=
  .ofSeconds d.seconds.toUInt64

/-- A truncated duration lasts its whole seconds. -/
theorem nanoseconds_truncated (d : Duration) :
    d.truncated.nanoseconds = d.seconds * 1000000000 := by
  show (UInt64.ofNat d.seconds).toNat * 1000000000 = _
  rw [UInt64.toNat_ofNat_of_lt' d.seconds_lt]

/-- Only durations of whole seconds are what truncation makes of them. -/
theorem truncated_eq_iff : d.truncated = d ↔ d.subsecond = 0 := by
  have hext : d.truncated = d ↔ d.truncated.nanoseconds = d.nanoseconds :=
    ⟨congrArg nanoseconds, fun h => by cases d; exact Duration.mk.injEq .. ▸ h⟩
  rw [hext, nanoseconds_truncated, seconds, subsecond]
  omega

/-- A duration is more than nothing after truncation just if it has a whole second. -/
theorem truncated_ne_zero_iff : d.truncated.nanoseconds ≠ 0 ↔ 1 ≤ d.seconds := by
  rw [nanoseconds_truncated]
  omega

end Duration

/-- A number of 32 bits is read back from its numeral. -/
theorem Json.uint32?_nat (n : UInt32) : uint32? (.nat n.toNat) = some n := by
  simp only [uint32?, nat?_nat, Option.bind_eq_bind, Option.bind_some, if_pos n.toNat_lt_size]
  simp [Nat.toUInt32]

namespace Config

variable {c d : Config}

/-- The check passes just for the valid configurations. -/
theorem validate_eq_ok_iff : c.validate = .ok () ↔ c.IsValid := by
  unfold validate IsValid
  split
  · rename_i h
    exact iff_of_false (fun he => nomatch he) fun hv => hv.1 h
  · rename_i hcommits
    split
    · rename_i h
      exact iff_of_false (fun he => nomatch he) fun hv => hv.2 h
    · rename_i htime
      exact iff_of_true rfl ⟨hcommits, htime⟩

/-- The bytes of the JSON text of a configuration. -/
def encode (c : Config) : Bytes :=
  Text.bytes c.toJson.render

/-- The configuration with its time in whole seconds. -/
def truncated (c : Config) : Config :=
  { c with maxDeltaTime := c.maxDeltaTime.truncated }

/-- What a configuration is written as may be written. -/
theorem plain_toJson (c : Config) : c.toJson.Plain := by
  refine .object fun m hm => ?_
  simp only [List.mem_cons, List.not_mem_nil, or_false] at hm
  rcases hm with rfl | rfl | rfl
  · exact .bool c.isInline
  · exact .nat (Nat.lt_trans c.maxDeltaCommits.toNat_lt_size (by decide))
  · exact .nat c.maxDeltaTime.seconds_lt

/-- A configuration is read back with its time threshold truncated to seconds. -/
theorem ofJson?_toJson (c : Config) : ofJson? c.toJson = some c.truncated := by
  have hj : ofJson? c.toJson =
      (Json.uint32? (.nat c.maxDeltaCommits.toNat)).bind fun commits =>
        (Json.uint64? (.nat c.maxDeltaTime.seconds)).bind fun seconds =>
          some ⟨c.isInline, commits, .ofSeconds seconds⟩ := rfl
  have hseconds : c.maxDeltaTime.seconds.toUInt64.toNat = c.maxDeltaTime.seconds :=
    UInt64.toNat_ofNat_of_lt' c.maxDeltaTime.seconds_lt
  have hread := Json.uint64?_nat c.maxDeltaTime.seconds.toUInt64
  rw [hseconds] at hread
  rw [hj, Json.uint32?_nat, hread]
  rfl

/-- **A configuration is read back in whole seconds.** -/
theorem decode?_encode (c : Config) : decode? c.encode = some c.truncated := by
  rw [decode?, encode, Text.bytes, Json.render, String.toList_ofList,
    Json.ofBytes?_encode c.plain_toJson]
  exact c.ofJson?_toJson

/-- A configuration is read back as it was just if its time threshold has whole seconds. -/
theorem truncated_eq_self_iff : c.truncated = c ↔ c.maxDeltaTime.subsecond = 0 := by
  rw [← Duration.truncated_eq_iff]
  constructor
  · exact congrArg maxDeltaTime
  · intro h
    rw [truncated, h]

/-- **What comes back of a configuration:** the same one just if its time is a number of whole
seconds, and a valid one just if its time is a second or more. -/
theorem round_trip_in_seconds (h : c.validate = .ok ()) :
    ∃ d, decode? c.encode = some d ∧ d.isInline = c.isInline ∧
      d.maxDeltaCommits = c.maxDeltaCommits ∧
      d.maxDeltaTime.nanoseconds = c.maxDeltaTime.seconds * 1000000000 ∧
      (d = c ↔ c.maxDeltaTime.subsecond = 0) ∧
      (d.validate = .ok () ↔ 1 ≤ c.maxDeltaTime.seconds) := by
  refine ⟨c.truncated, c.decode?_encode, rfl, rfl, c.maxDeltaTime.nanoseconds_truncated,
    truncated_eq_self_iff, ?_⟩
  have hcommits : c.truncated.maxDeltaCommits ≠ 0 := (validate_eq_ok_iff.1 h).1
  rw [validate_eq_ok_iff, ← Duration.truncated_ne_zero_iff]
  exact and_iff_right hcommits

/-- A second and a half comes back as one second. -/
theorem round_trip_in_seconds_of_fraction :
    ∃ c d : Config, c.validate = .ok () ∧ c.maxDeltaTime.nanoseconds = 1500000000 ∧
      decode? c.encode = some d ∧ d ≠ c ∧ d.validate = .ok () ∧
      d.maxDeltaTime.nanoseconds = 1000000000 := by
  let c : Config := ⟨false, 5, ⟨1500000000, by decide⟩⟩
  have hc : c.validate = .ok () := rfl
  obtain ⟨d, hd, -, -, htime, heq, hvalid⟩ := round_trip_in_seconds hc
  have hone : c.maxDeltaTime.seconds = 1 := by decide
  rw [hone] at htime hvalid
  exact ⟨c, d, hc, rfl, hd, fun he => absurd (heq.1 he) (by decide), hvalid.2 (Nat.le_refl 1),
    htime⟩

/-- Half a second is a valid time, and comes back as none at all. -/
theorem not_round_trip :
    ∃ c d : Config, c = ⟨false, 5, ⟨500000000, by decide⟩⟩ ∧ c.validate = .ok () ∧
      decode? c.encode = some d ∧ d ≠ c ∧ d.validate ≠ .ok () := by
  refine ⟨_, _, rfl, rfl, decode?_encode _, ?_, ?_⟩
  · decide
  · rw [ne_eq, validate_eq_ok_iff]
    decide

end Config
end CommitTimeline
