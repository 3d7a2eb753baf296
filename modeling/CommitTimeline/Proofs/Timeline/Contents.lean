/-
# What a timeline keeps of what it was given

A timeline is made of some entries, and others are put into it one after the other
(`Timeline.given`). What a lookup finds is changed by an entry at its own timestamp and at no other
(`Timeline.find?_upsert`), so for each timestamp the last entry given for it speaks
(`Timeline.find?_given`), and of two strict timelines in which every lookup finds the same there is
only one (`Timeline.IsStrict.ext_find?`). Hence a timeline is a finite map with ordered keys, and in
which order it was given entries of different timestamps does not show
(`Timeline.keeps_the_last`).
-/

import CommitTimeline.Proofs.Timeline
import Mathlib.Data.List.Dedup
import Mathlib.Data.List.Induction

namespace CommitTimeline
namespace Timeline

/-- The timeline of some entries, with others put into it one after the other. -/
def given (entries later : List Entry) : Timeline :=
  later.foldl upsert (ofEntries entries)

/-- The last entry of a timestamp in a list. -/
def lastOf? (timestamp : Timestamp) (l : List Entry) : Option Entry :=
  (l.filter fun e => e.timestamp = timestamp).getLast?

variable {t u : Timeline} {e : Entry} {l later : List Entry} {timestamp : Timestamp}

/-- What is given last is put last. -/
theorem given_append (l later : List Entry) (e : Entry) :
    given l (later ++ [e]) = (given l later).upsert e := by
  rw [given, List.foldl_append]
  rfl

/-- Nothing is found for a timestamp just if no entry has it. -/
theorem find?_eq_none_iff :
    t.find? timestamp = none ↔ ∀ e ∈ t.entries, e.timestamp ≠ timestamp := by
  simp [find?]

/-- What a lookup finds in a strict timeline. -/
theorem IsStrict.find?_eq_some_iff (h : t.IsStrict) :
    t.find? timestamp = some e ↔ e ∈ t.entries ∧ e.timestamp = timestamp := by
  refine ⟨mem_of_find?, ?_⟩
  rintro ⟨he, rfl⟩
  exact find?_of_mem h he

/-- **A strict timeline is known by what its lookups find.** -/
theorem IsStrict.ext_find? (ht : t.IsStrict) (hu : u.IsStrict)
    (h : ∀ timestamp, u.find? timestamp = t.find? timestamp) : u = t := by
  refine IsStrict.ext ht hu fun e => ?_
  have hiff : u.find? e.timestamp = some e ↔ t.find? e.timestamp = some e := by rw [h]
  rw [hu.find?_eq_some_iff, ht.find?_eq_some_iff] at hiff
  simpa using hiff

/-- **An entry that is put in is found at its timestamp,** and at any other what was found
before. -/
theorem find?_upsert (h : t.IsStrict) (e : Entry) (timestamp : Timestamp) :
    (t.upsert e).find? timestamp =
      if e.timestamp = timestamp then some e else t.find? timestamp := by
  have hstrict := h.upsert e
  split
  · rename_i heq
    exact hstrict.find?_eq_some_iff.2 ⟨(mem_upsert_iff h).2 (.inl rfl), heq⟩
  · rename_i hne
    ext x
    rw [hstrict.find?_eq_some_iff, h.find?_eq_some_iff, mem_upsert_iff h]
    constructor
    · rintro ⟨rfl | ⟨hx, -⟩, hts⟩
      · exact absurd hts hne
      · exact ⟨hx, hts⟩
    · rintro ⟨hx, rfl⟩
      exact ⟨.inr ⟨hx, fun heq => hne heq.symm⟩, rfl⟩

/-- The last entry for a timestamp is the one at the end, if it is for this timestamp. -/
theorem lastOf?_append (timestamp : Timestamp) (l : List Entry) (e : Entry) :
    lastOf? timestamp (l ++ [e]) =
      if e.timestamp = timestamp then some e else lastOf? timestamp l := by
  rw [lastOf?, lastOf?, List.filter_append]
  split
  · rename_i h
    have hlast : [e].filter (fun x => x.timestamp = timestamp) = [e] := by simp [h]
    rw [hlast, List.getLast?_concat]
  · rename_i h
    have hnone : [e].filter (fun x => x.timestamp = timestamp) = [] := by simp [h]
    rw [hnone, List.append_nil]

/-- The last entry for a timestamp is in the list, and is for this timestamp. -/
theorem mem_of_lastOf? (h : lastOf? timestamp l = some e) : e ∈ l ∧ e.timestamp = timestamp := by
  obtain ⟨hmem, hts⟩ := List.mem_filter.1 (List.mem_of_getLast? h)
  exact ⟨hmem, of_decide_eq_true hts⟩

/-- Without a last entry for a timestamp the list has none for it. -/
theorem lastOf?_eq_none (h : lastOf? timestamp l = none) : ∀ e ∈ l, e.timestamp ≠ timestamp := by
  rw [lastOf?, List.getLast?_eq_none_iff, List.filter_eq_nil_iff] at h
  exact fun e he hts => h e he (decide_eq_true hts)

/-- In the timeline of entries that share no timestamp each of them is found at its own. -/
theorem find?_ofEntries (hl : (l.map (·.timestamp)).Nodup) (timestamp : Timestamp) :
    (ofEntries l).find? timestamp = lastOf? timestamp l := by
  cases h : lastOf? timestamp l with
  | none =>
    rw [find?_eq_none_iff]
    exact fun e he => lastOf?_eq_none h e (mem_ofEntries.1 he)
  | some e =>
    obtain ⟨he, hts⟩ := mem_of_lastOf? h
    exact (isStrict_ofEntries hl).find?_eq_some_iff.2 ⟨mem_ofEntries.2 he, hts⟩

/-- **Entries stay in the strict order of their timestamps.** -/
theorem isStrict_given (hl : (l.map (·.timestamp)).Nodup) (later : List Entry) :
    (given l later).IsStrict := by
  induction later using List.reverseRecOn with
  | nil => exact isStrict_ofEntries hl
  | append_singleton later e ih =>
    rw [given_append]
    exact ih.upsert e

/-- **The last entry that was given for a timestamp is found there.** -/
theorem find?_given (hl : (l.map (·.timestamp)).Nodup) (later : List Entry)
    (timestamp : Timestamp) :
    (given l later).find? timestamp = lastOf? timestamp (l ++ later) := by
  induction later using List.reverseRecOn with
  | nil =>
    rw [List.append_nil]
    exact find?_ofEntries hl timestamp
  | append_singleton later e ih =>
    rw [given_append, find?_upsert (isStrict_given hl later), ← List.append_assoc, lastOf?_append,
      ih]

/-- A timeline has the timestamps that it was given. -/
theorem mem_timestamps_given (hl : (l.map (·.timestamp)).Nodup) :
    timestamp ∈ (given l later).entries.map (·.timestamp) ↔
      timestamp ∈ (l ++ later).map (·.timestamp) := by
  have hnone := find?_given hl later timestamp
  constructor
  · rintro hm
    obtain ⟨e, he, rfl⟩ := List.mem_map.1 hm
    rw [find?_of_mem (isStrict_given hl later) he] at hnone
    exact List.mem_map_of_mem (mem_of_lastOf? hnone.symm).1
  · intro hm
    obtain ⟨e, he, rfl⟩ := List.mem_map.1 hm
    cases hlast : lastOf? e.timestamp (l ++ later) with
    | none => exact absurd rfl (lastOf?_eq_none hlast e he)
    | some x =>
      obtain ⟨hx, hts⟩ := mem_of_find? (hnone.trans hlast)
      exact hts ▸ List.mem_map_of_mem hx

/-- **A timeline has as many entries as it was given timestamps.** -/
theorem length_given (hl : (l.map (·.timestamp)).Nodup) (later : List Entry) :
    (given l later).length = ((l ++ later).map (·.timestamp)).dedup.length := by
  have hnodup : ((given l later).entries.map (·.timestamp)).Nodup :=
    List.pairwise_map.2 ((isStrict_given hl later).imp Timestamp.ne_of_lt)
  have hperm : ((given l later).entries.map (·.timestamp)).Perm
      ((l ++ later).map (·.timestamp)).dedup := by
    refine (List.perm_ext_iff_of_nodup hnodup (List.nodup_dedup _)).2 fun timestamp => ?_
    rw [List.mem_dedup]
    exact mem_timestamps_given hl
  rw [length, ← hperm.length_eq, List.length_map]

/-- **A timeline keeps for each timestamp the last entry that it was given.** It is made of entries
that share no timestamp, and others are put into it. Its entries are in the strict order of their
timestamps, one for each timestamp that was given. The instant, the details and the time of request
of a timestamp are those of the last entry given for it, and there are none if it was not given.
What was given for different timestamps may have come in any other order. -/
theorem keeps_the_last (hl : (l.map (·.timestamp)).Nodup) (later : List Entry) :
    (given l later).entries.Pairwise (fun a b => a.timestamp < b.timestamp) ∧
    (given l later).length = ((l ++ later).map (·.timestamp)).dedup.length ∧
    (∀ timestamp,
      (given l later).instant? timestamp = (lastOf? timestamp (l ++ later)).map (·.instant) ∧
      (given l later).details? timestamp = (lastOf? timestamp (l ++ later)).map (·.details) ∧
      (given l later).requestedAt? timestamp =
        (lastOf? timestamp (l ++ later)).bind (·.requestedAt)) ∧
    (∀ timestamp, timestamp ∉ (l ++ later).map (·.timestamp) →
      (given l later).instant? timestamp = none ∧ (given l later).details? timestamp = none ∧
        (given l later).requestedAt? timestamp = none) ∧
    ∀ l' later', (l'.map (·.timestamp)).Nodup →
      (∀ timestamp, (l' ++ later').filter (fun e => e.timestamp = timestamp) =
        (l ++ later).filter fun e => e.timestamp = timestamp) →
      given l' later' = given l later := by
  have hstrict := isStrict_given hl later
  refine ⟨hstrict, length_given hl later, ?_, ?_, ?_⟩
  · intro timestamp
    rw [instant?, details?, requestedAt?, find?_given hl]
    exact ⟨rfl, rfl, rfl⟩
  · intro timestamp hunseen
    have hnone : (given l later).find? timestamp = none := by
      rw [find?_eq_none_iff]
      rintro e he rfl
      exact hunseen ((mem_timestamps_given hl).1 (List.mem_map_of_mem he))
    rw [instant?, details?, requestedAt?, hnone]
    exact ⟨rfl, rfl, rfl⟩
  · intro l' later' hl' hfilter
    refine hstrict.ext_find? (isStrict_given hl' later') fun timestamp => ?_
    rw [find?_given hl, find?_given hl', lastOf?, lastOf?, hfilter]

/-- One of two delta commits has gone on in flight and a third one has come, in another order the
second time. -/
theorem keeps_the_last_of_replacement :
    ∃ l later l' later' : List Entry, (l.map (·.timestamp)).Nodup ∧ l ≠ l' ∧
      (given l later).length = 3 ∧
      (given l later).instant? ⟨"a"⟩ = some ⟨⟨"a"⟩, .deltaCommit, .inflight⟩ ∧
      (given l later).details? ⟨"ab"⟩ = none ∧ given l' later' = given l later := by
  let entry (name : String) (state : State) : Entry := ⟨⟨⟨name⟩, .deltaCommit, state⟩, .empty, none⟩
  let a := entry "a" .requested
  let moved := entry "a" .inflight
  let b := entry "b" .requested
  let c := entry "a0" .requested
  have hl : ([b, a].map (·.timestamp)).Nodup := by decide
  have hl' : ([a, c].map (·.timestamp)).Nodup := by decide
  obtain ⟨-, hlength, hfound, hunseen, horder⟩ := keeps_the_last hl [moved, c]
  refine ⟨[b, a], [moved, c], [a, c], [b, moved], hl, by decide, hlength.trans (by decide),
    (hfound ⟨"a"⟩).1.trans (by decide), (hunseen ⟨"ab"⟩ (by decide)).2.1, ?_⟩
  refine horder _ _ hl' fun timestamp => ?_
  by_cases ha : (⟨"a"⟩ : Timestamp) = timestamp
  · subst ha
    decide
  · have hmoved : ¬a.timestamp = timestamp ∧ ¬moved.timestamp = timestamp := ⟨ha, ha⟩
    by_cases hb : b.timestamp = timestamp
    · subst hb
      decide
    · simp [List.filter_cons, hmoved, hb]

end Timeline
end CommitTimeline
