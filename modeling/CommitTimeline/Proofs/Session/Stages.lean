/-
# The stages of an instant

What was written to the place of a timestamp, with the task that wrote it, are the
stages of its instant. `Marker.after` is the marker that a step leaves. If every
write either creates a marker where there was none, or overwrites the marker that it
has read since it looked at its version, then each stage comes from the one before
by such a step (`History.Legal.exists_stages`).
-/

import CommitTimeline.Proofs.Session.Exchanges
import Mathlib.Data.List.Chain

namespace CommitTimeline

/-- Nothing follows a completed action. -/
theorem State.ne_completed_of_leads {s target : State} (h : s.Leads target) : s ≠ .completed := by
  rintro rfl
  cases h

/-- States that follow each other from the first one are a prefix of all of them. -/
theorem State.isPrefix_of_isChain {l : List State} (hhead : ∀ s ∈ l.head?, s = .requested)
    (hchain : l.IsChain Leads) : l <+: [requested, inflight, completed] := by
  match l with
  | [] => exact List.nil_prefix
  | a :: l =>
    obtain rfl := hhead a rfl
    match l with
    | [] => exact ⟨_, rfl⟩
    | b :: l =>
      rw [List.isChain_cons_cons] at hchain
      obtain rfl : inflight = b := Option.some.inj hchain.1
      match l with
      | [] => exact ⟨_, rfl⟩
      | c :: l =>
        obtain ⟨-, hchain⟩ := hchain
        rw [List.isChain_cons_cons] at hchain
        obtain rfl : completed = c := Option.some.inj hchain.1
        match l with
        | [] => exact ⟨_, rfl⟩
        | d :: l =>
          obtain ⟨-, hchain⟩ := hchain
          rw [List.isChain_cons_cons] at hchain
          cases hchain.1

namespace Marker

/-- The marker that a step leaves, taken with new details or without. -/
def after (m : Marker) (target : State) (details : Option Details) : Marker :=
  ⟨m.instant.moved target, details.getD m.details, m.requestedAt⟩

/-- A step never turns a delta commit into something else, or something else into one. -/
theorem action_after_eq_deltaCommit {m : Marker} {target : State} {details : Option Details} :
    (m.after target details).instant.action = .deltaCommit ↔ m.instant.action = .deltaCommit := by
  show (if target = .completed then m.instant.action.completed else m.instant.action) = _ ↔ _
  split
  · cases m.instant.action <;> decide
  · exact Iff.rfl

/-- A transition keeps the timestamp. -/
theorem timestamp_after (m : Marker) (target : State) (details : Option Details) :
    (m.after target details).timestamp = m.timestamp :=
  rfl

end Marker

/-- A marker that was written to its place, and by which task. -/
structure Stage where
  task : Nat
  marker : Marker
  deriving DecidableEq

namespace Stage

/-- The write of a stage. -/
def write (s : Stage) : Write :=
  ⟨s.task, s.marker.encode⟩

/-- A write tells its stage. -/
theorem write_injective : Function.Injective write := by
  rintro ⟨i, m⟩ ⟨j, n⟩ h
  obtain ⟨rfl, hm⟩ := Write.mk.inj h
  obtain rfl : m = n := Marker.encode_injective hm
  rfl

/-- A life that begins as requested goes on through the states in their order. -/
theorem states_isPrefix {R : Stage → Stage → Prop} {stages : List Stage}
    (hhead : ∀ a ∈ stages.head?, a.marker.instant.state = .requested)
    (hleads : ∀ a b, R a b → a.marker.instant.state.Leads b.marker.instant.state)
    (hchain : stages.IsChain R) :
    stages.map (·.marker.instant.state) <+: [.requested, .inflight, .completed] := by
  apply State.isPrefix_of_isChain
  · intro s hs
    rw [List.head?_map, Option.mem_def, Option.map_eq_some_iff] at hs
    obtain ⟨a, ha, rfl⟩ := hs
    exact hhead a ha
  · rw [List.isChain_map]
    exact hchain.imp hleads

end Stage

namespace Session.Moves

variable {table : Table} {instant : Instant} {target : State} {details : Option Details}
  {current m : Marker} {own : List Exchange}

/-- A transition moves the marker of its instant. -/
theorem timestamp (h : Moves table instant target details current m own) :
    m.timestamp = instant.timestamp := by
  rw [h.marker]
  rfl

/-- The instant that is moved is the one that was read, if it was read at its place. -/
theorem instant_eq (h : Moves table instant target details current m own)
    (ht : current.timestamp = instant.timestamp) : current.instant = instant := by
  obtain ⟨⟨t, a, s⟩, d, r⟩ := current
  obtain ⟨t', a', s'⟩ := instant
  obtain rfl : a = a' := h.action
  obtain rfl : s = s' := h.state
  obtain rfl : t = t' := ht
  rfl

/-- The marker that a transition leaves is the current one after it. -/
theorem eq_after (h : Moves table instant target details current m own)
    (ht : current.timestamp = instant.timestamp) : m = current.after target details := by
  rw [h.marker, Marker.after, h.instant_eq ht]

end Session.Moves

namespace History

/-- A write, by the task that has asked before it what is given, either creates a
marker or moves one. -/
inductive Written (table : Table) (begins : Marker → Prop)
    (moves : Instant → State → Option Details → Prop) (before : List Exchange) :
    Marker → Exchange → Prop where
  | created {m : Marker} {version : String} (hb : begins m) :
      Written table begins moves before m
        (.stored (table.markerAt m.timestamp) m.encode .absent version)
  | moved {instant : Instant} {target : State} {details : Option Details} {current m : Marker}
      {e : Exchange} {own rest : List Exchange}
      (hm : Session.Moves table instant target details current m (e :: own))
      (hb : before = own ++ rest) (hs : moves instant target details) :
      Written table begins moves before m e

variable {table : Table} {begins : Nat → Marker → Prop}
  {moves : Nat → Instant → State → Option Details → Prop}

/-- A stage comes from the one before by a step, and nobody has written in between. -/
def Follows (acts : List Act) (table : Table)
    (moves : Nat → Instant → State → Option Details → Prop) (a b : Stage) : Prop :=
  Undisturbed acts b.task (table.markerAt a.marker.timestamp) a.marker.encode b.marker.encode ∧
    ∃ target details, moves b.task a.marker.instant target details ∧
      b.marker = a.marker.after target details

/-- What a task overwrites after it has looked and read is what was last written. -/
theorem Legal.eq_of_moves {acts : List Act} {s : Storage.Objects} {i : Nat} {e : Exchange}
    {instant : Instant} {target : State} {details : Option Details} {current m : Marker}
    {read rest : List Exchange} (hl : Legal ⟨⟨i, e⟩ :: acts, s⟩)
    (hm : Session.Moves table instant target details current m (e :: read))
    (hb : own i acts = read ++ rest) :
    ∃ w ws, writesAt (table.markerAt instant.timestamp) acts = w :: ws ∧
      Marker.decode? w.data = some current ∧
      Undisturbed (⟨i, e⟩ :: acts) i (table.markerAt instant.timestamp) w.data m.encode := by
  obtain ⟨known, data, version, hd, ho⟩ := hm.exchanges
  obtain ⟨rfl, rfl⟩ := List.cons.inj ho
  obtain ⟨between, acts, rfl, -, hr⟩ := exists_of_own_eq (l := []) hb
  obtain ⟨before, acts, rfl, -, -⟩ := exists_of_own_eq (l := []) hr
  obtain ⟨hbetween, hbefore, w, ws, he, rfl⟩ := Legal.read_eq (l := []) hl
  refine ⟨w, ws, ?_, hd, known, version, [], between, before, acts, rfl, hbetween, hbefore⟩
  rw [writesAt_append, hbetween, writesAt_cons_of_idle rfl, writesAt_append, hbefore,
    writesAt_cons_of_idle rfl]
  exact he

/-- A marker that is written is put at its own path, as it is encoded. -/
theorem Written.write? {begins : Marker → Prop} {moves : Instant → State → Option Details → Prop}
    {before : List Exchange} {m : Marker} {e : Exchange}
    (h : Written table begins moves before m e) :
    e.write? = some (table.markerAt m.timestamp, m.encode) := by
  cases h with
  | created => rfl
  | moved hm =>
    obtain ⟨known, data, version, -, ho⟩ := hm.exchanges
    obtain ⟨rfl, -⟩ := List.cons.inj ho
    rw [hm.timestamp]
    rfl

/-- What is written under one pair of conditions is written under any weaker one. -/
theorem Written.imp {begins begins' : Marker → Prop}
    {moves moves' : Instant → State → Option Details → Prop} {before : List Exchange} {m : Marker}
    {e : Exchange} (h : Written table begins moves before m e)
    (hb : ∀ m, begins m → begins' m)
    (hm : ∀ instant target details, moves instant target details → moves' instant target details) :
    Written table begins' moves' before m e := by
  cases h with
  | created h => exact .created (hb _ h)
  | moved h h' hs => exact .moved h h' (hm _ _ _ hs)

/-- What a write adds to the stages so far: it is the first one, or it follows the last one. -/
theorem Written.stage {acts : List Act} {s : Storage.Objects} {i : Nat} {m : Marker} {e : Exchange}
    {stages : List Stage} (h : Written table (begins i) (moves i) (own i acts) m e)
    (hl : Legal ⟨⟨i, e⟩ :: acts, s⟩)
    (hwrites : (writesAt (table.markerAt m.timestamp) acts).reverse = stages.map Stage.write)
    (htime : ∀ a ∈ stages, a.marker.timestamp = m.timestamp) :
    (stages = [] ∧ begins i m) ∨
      ∃ l a, stages = l ++ [a] ∧ Follows (⟨i, e⟩ :: acts) table moves a ⟨i, m⟩ := by
  cases h with
  | created hb =>
    left
    rw [Legal.put_absent (l := []) hl] at hwrites
    exact ⟨List.map_eq_nil_iff.1 hwrites.symm, hb⟩
  | @moved instant target details current _ _ read rest hm hb hs =>
    right
    obtain ⟨w, ws, hw, hd, hu⟩ := Legal.eq_of_moves hl hm hb
    rw [hm.timestamp, hw, List.reverse_cons] at hwrites
    obtain ⟨l, l', rfl, -, hlast⟩ := List.map_eq_append_iff.1 hwrites.symm
    obtain ⟨a, rfl, rfl⟩ := List.map_eq_singleton_iff.1 hlast
    obtain rfl : current = a.marker := Marker.eq_of_decode?_encode hd
    have ht : a.marker.timestamp = instant.timestamp := by
      rw [htime a (List.mem_append_right l List.mem_cons_self), hm.timestamp]
    refine ⟨l, a, rfl, ?_, target, details, ?_, hm.eq_after ht⟩
    · rw [ht]
      exact hu
    · rw [hm.instant_eq ht]
      exact hs

/-- **Each stage comes from the one before,** and the first one is created. -/
theorem Legal.exists_stages (t : Timestamp) :
    ∀ {acts : List Act} {s : Storage.Objects}, Legal ⟨acts, s⟩ →
      (∀ later i e before data, acts = later ++ ⟨i, e⟩ :: before →
        e.write? = some (table.markerAt t, data) →
        ∃ m, Written table (begins i) (moves i) (own i before) m e) →
      ∃ stages : List Stage, (writesAt (table.markerAt t) acts).reverse = stages.map Stage.write ∧
        (∀ a ∈ stages, a.marker.timestamp = t) ∧ (∀ a ∈ stages.head?, begins a.task a.marker) ∧
        stages.IsChain (Follows acts table moves)
  | [], _, _, _ => ⟨[], rfl, by simp, by simp, .nil⟩
  | ⟨i, e⟩ :: acts, s, hl, hw => by
    obtain ⟨s₀, s₁, hl₀, -, -⟩ := Legal.of_append (l := []) hl
    obtain ⟨stages, hwrites, htime, hbegins, hchain⟩ := exists_stages t hl₀
      fun later j f before data ha => hw (⟨i, e⟩ :: later) j f before data (by rw [ha]; rfl)
    replace hchain : stages.IsChain (Follows (⟨i, e⟩ :: acts) table moves) :=
      hchain.imp fun _ _ h => ⟨h.1.cons _, h.2⟩
    cases he : e.write? with
    | none => exact ⟨stages, by rw [writesAt_cons_of_idle he, hwrites], htime, hbegins, hchain⟩
    | some w =>
      obtain ⟨path, data⟩ := w
      by_cases hp : path = table.markerAt t
      · subst hp
        obtain ⟨m, hm⟩ := hw [] i e acts data rfl he
        have hpath := hm.write?
        rw [he, Option.some.injEq, Prod.mk.injEq] at hpath
        obtain ⟨hpath, rfl⟩ := hpath
        obtain ⟨-, rfl⟩ := Table.markerAt_inj hpath
        have hnew : (writesAt (table.markerAt m.timestamp) (⟨i, e⟩ :: acts)).reverse =
            (stages ++ [Stage.mk i m]).map Stage.write := by
          rw [writesAt_cons_of_eq he, List.reverse_cons, hwrites, List.map_append]
          rfl
        have htimes : ∀ a ∈ stages ++ [Stage.mk i m], a.marker.timestamp = m.timestamp := by
          intro a ha
          rcases List.mem_append.1 ha with ha | ha
          · exact htime a ha
          · rw [List.mem_singleton.1 ha]
        refine ⟨stages ++ [Stage.mk i m], hnew, htimes, ?_⟩
        rcases hm.stage hl hwrites htime with ⟨rfl, hb⟩ | ⟨l, a, rfl, hfollows⟩
        · exact ⟨by simpa using hb, .singleton _⟩
        · refine ⟨?_, hchain.append (.singleton _) ?_⟩
          · rw [List.append_assoc, List.head?_append]
            rw [List.head?_append] at hbegins
            exact hbegins
          · intro x hx y hy
            rw [List.getLast?_concat, Option.mem_some_iff] at hx
            rw [List.head?_cons, Option.mem_some_iff] at hy
            rw [← hx, ← hy]
            exact hfollows
      · exact ⟨stages, by rw [writesAt_cons_of_ne he hp, hwrites], htime, hbegins, hchain⟩

end History
end CommitTimeline
