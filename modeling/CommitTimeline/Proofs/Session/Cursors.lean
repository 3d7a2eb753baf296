/-
# Queries and walks

What a filter selects of a view is a list in the strict order of the timestamps, since a view
shows every instant once (`Timeline.IsStrict`). The first instant, the last one and the number of
them are those of this list (`Timeline.isAnswered`).

A cursor has a list of instants before it, and each answer takes the head off it
(`Cursor.next_fst`, `Cursor.remaining_next`). Nothing that sessions do touches it
(`Readers.Run.answers_eq`). So, whatever is written in between, a walk gives what the view had when
the walk began, one by one, and nothing from then on (`Readers.walks_are_snapshots`).
-/

import CommitTimeline.Proofs.Session.Views
import CommitTimeline.Timeline.Cursor

namespace CommitTimeline

/-- The instant is of an action and in a state that the filter lists, if it lists any. -/
def Filter.Accepts (f : Filter) (i : Instant) : Prop :=
  (∀ actions ∈ f.actions, i.action ∈ actions) ∧ ∀ states ∈ f.states, i.state ∈ states

/-- A filter selects just what it accepts. -/
theorem Filter.selects_iff {f : Filter} {i : Instant} : f.selects i = true ↔ f.Accepts i := by
  obtain ⟨actions, states⟩ := f
  cases actions <;> cases states <;> simp [selects, Accepts]

namespace Timeline

variable {t : Timeline}

/-- The list is what the filter selects of the timeline, and the queries agree with it. -/
structure IsAnswered (t : Timeline) (f : Filter) (l : List Instant) : Prop where
  sublist : l.Sublist t.instants
  selected : ∀ i, i ∈ l ↔ i ∈ t.instants ∧ f.Accepts i
  ascending : l.Pairwise fun i j => i.timestamp < j.timestamp
  first : t.first? f = l.head?
  last : t.last? f = l.getLast?
  count : t.count f = l.length

/-- **The queries agree:** the first, the last and the number of the selected instants are those
of the list of them. -/
theorem isAnswered (h : t.IsStrict) (f : Filter) : t.IsAnswered f (t.select f) where
  sublist := List.filter_sublist
  selected := by
    intro i
    rw [select, List.mem_filter, Filter.selects_iff]
  ascending := by
    have hinstants : t.instants.Pairwise fun i j => i.timestamp < j.timestamp :=
      List.pairwise_map.2 h
    exact hinstants.filter _
  first := (List.head?_filter ..).symm
  last := by
    rw [last?, select, ← List.head?_filter, List.filter_reverse, List.head?_reverse]
  count := rfl

end Timeline

namespace Cursor

/-- The instants that a walk has not come to. -/
def remaining (c : Cursor) : List Instant :=
  c.rest.filter c.filter.selects

/-- A walk begins with the whole selection ahead of it. -/
theorem remaining_start (t : Timeline) (f : Filter) : (start t f).remaining = t.select f :=
  rfl

/-- What is passed over is not selected, and what is stopped at is. -/
theorem remaining_eq (c : Cursor) :
    c.remaining = (c.rest.dropWhile fun i => !c.filter.selects i).filter c.filter.selects := by
  rw [remaining]
  induction c.rest with
  | nil => rfl
  | cons i l ih =>
    cases hi : c.filter.selects i with
    | true => rw [List.dropWhile_cons_of_neg (by simp [hi])]
    | false =>
      rw [List.dropWhile_cons_of_pos (by simp [hi]), ← ih,
        List.filter_cons_of_neg (Bool.eq_false_iff.1 hi)]

/-- **A walk answers with the first of what remains,** and then the others remain. -/
theorem next_eq (c : Cursor) :
    c.next.1 = c.remaining.head? ∧ c.next.2.remaining = c.remaining.tail := by
  rw [remaining_eq c, next]
  split
  · rename_i hrest
    rw [hrest]
    exact ⟨rfl, rfl⟩
  · rename_i i rest hrest
    have hi : c.filter.selects i = true := by
      have hhead := List.head?_dropWhile_not (fun i => !c.filter.selects i) c.rest
      rw [hrest] at hhead
      simpa using hhead
    rw [hrest, List.filter_cons_of_pos hi]
    exact ⟨rfl, rfl⟩

end Cursor

/-- Sessions, and walks through what their views were. -/
structure Readers where
  sessions : Sessions
  walk : Nat → Option Cursor

namespace Readers

/-- Nothing is stored, nothing was called, and no walk has begun. -/
def empty : Readers :=
  ⟨.empty, fun _ => none⟩

/-- A walk begins on the view that a session has now. -/
def opened (R : Readers) (n k : Nat) (f : Filter) : Readers :=
  { R with walk := Function.update R.walk n (some (.start (R.sessions.view k) f)) }

/-- A walk that is opened stands at the start of what the session views. -/
theorem opened_walk (R : Readers) (n k : Nat) (f : Filter) :
    (R.opened n k f).walk n = some (.start (R.sessions.view k) f) :=
  Function.update_self ..

/-- What happens to sessions and walks. -/
inductive Event where
  /-- Sessions go on. -/
  | acts
  /-- A walk begins, or begins anew, on the view of a session. -/
  | opens (n k : Nat) (f : Filter)
  /-- A walk is asked for the next instant. -/
  | yields (n : Nat) (answer : Option Instant)

/-- What can happen next. -/
inductive Step (table : Table) : Readers → Event → Readers → Prop where
  | acts {R : Readers} {S : Sessions} (h : Sessions.Step table R.sessions S) :
      Step table R .acts { R with sessions := S }
  | opens {R : Readers} (n k : Nat) (f : Filter) : Step table R (.opens n k f) (R.opened n k f)
  | yields {R : Readers} {n : Nat} {c : Cursor} (h : R.walk n = some c) :
      Step table R (.yields n c.next.1) { R with walk := Function.update R.walk n (some c.next.2) }

/-- What has happened, one after the other. -/
inductive Run (table : Table) : Readers → List Event → Readers → Prop where
  | done (R : Readers) : Run table R [] R
  | next {R R' R'' : Readers} {a : Event} {l : List Event} (h : Step table R a R')
      (hl : Run table R' l R'') : Run table R (a :: l) R''

/-- What a walk answered with, in order. -/
def answers (n : Nat) (l : List Event) : List (Option Instant) :=
  l.filterMap fun
    | .yields m answer => if m = n then some answer else none
    | _ => none

variable {table : Table} {R R' : Readers} {a : Event} {l : List Event} {n : Nat} {c : Cursor}

/-- A step of readers is a step of their sessions, or leaves these as they are. -/
theorem Step.sessions (h : Step table R a R') : Sessions.Steps table R.sessions R'.sessions := by
  cases h with
  | acts h => exact .single h
  | opens n k f => exact .refl
  | yields h => exact .refl

/-- A run of readers is a run of their sessions. -/
theorem Run.sessions (h : Run table R l R') : Sessions.Steps table R.sessions R'.sessions := by
  induction h with
  | done R => exact .refl
  | next h _ ih => exact h.sessions.trans ih

/-- **A walk goes through what remains of it, whatever else happens,** unless it begins anew. -/
theorem Run.answers_eq (h : Run table R l R') (hc : R.walk n = some c)
    (hl : ∀ k f, .opens n k f ∉ l) :
    (answers n l = (List.range (answers n l).length).map fun i => c.remaining[i]?) ∧
      ∃ c', R'.walk n = some c' := by
  induction h generalizing c with
  | done R => exact ⟨rfl, c, hc⟩
  | @next R R' R'' a l h _ ih =>
    have hl' : ∀ k f, .opens n k f ∉ l := fun k f hmem => hl k f (List.mem_cons_of_mem _ hmem)
    cases h with
    | acts h => exact ih hc hl'
    | opens m k f =>
      have hne : n ≠ m := by
        rintro rfl
        exact hl k f List.mem_cons_self
      exact ih ((Function.update_of_ne hne ..).trans hc) hl'
    | @yields m d hm =>
      by_cases hmn : m = n
      · subst hmn
        obtain rfl := Option.some.inj (hm.symm.trans hc)
        obtain ⟨hhead, htail⟩ := d.next_eq
        obtain ⟨hanswers, hwalk⟩ := ih (Function.update_self ..) hl'
        refine ⟨?_, hwalk⟩
        have hcons : answers m (.yields m d.next.1 :: l) = d.next.1 :: answers m l :=
          List.filterMap_cons_some (if_pos rfl)
        rw [hcons, List.length_cons, List.range_succ_eq_map, List.map_cons, List.map_map, hhead,
          List.head?_eq_getElem?]
        refine congrArg _ (hanswers.trans (List.map_congr_left fun i _ => ?_))
        rw [htail, List.getElem?_tail]
        rfl
      · have hskip : answers n (.yields m d.next.1 :: l) = answers n l :=
          List.filterMap_cons_none (if_neg hmn)
        rw [hskip]
        exact ih ((Function.update_of_ne (Ne.symm hmn) ..).trans hc) hl'

/-- Two runs in a row are a run. -/
theorem Run.append {R'' : Readers} {l' : List Event} (h : Run table R l R')
    (h' : Run table R' l' R'') : Run table R (l ++ l') R'' := by
  induction h with
  | done R => exact h'
  | next ha _ ih => exact .next ha (ih h')

/-- Sessions go on without the walks. -/
theorem exists_run {S S' : Sessions} (h : Sessions.Steps table S S') (walk : Nat → Option Cursor) :
    ∃ n, Run table ⟨S, walk⟩ (List.replicate n .acts) ⟨S', walk⟩ := by
  induction h using Relation.ReflTransGen.head_induction_on with
  | refl => exact ⟨0, .done _⟩
  | head hs _ ih =>
    obtain ⟨n, hn⟩ := ih
    exact ⟨n + 1, .next (.acts hs) hn⟩

/-- A walk that has begun is asked twice. -/
theorem exists_run_of_yields (table : Table) (S : Sessions) {walk : Nat → Option Cursor}
    (h : walk n = some c) :
    ∃ x y walk', Run table ⟨S, walk⟩ [.yields n x, .yields n y] ⟨S, walk'⟩ :=
  ⟨_, _, _, .next (.yields h) (.next (.yields (Function.update_self ..)) (.done _))⟩

/-- **Queries agree, and walks are snapshots.** Of every view that sessions come to, the first and
the last selected instant and their number are those of the list of what a filter selects, in the
strict order of the timestamps. And a walk that begins on that view answers with this list, one
instant after the other, and with nothing from then on, whatever is called and done in between. -/
theorem walks_are_snapshots (h : Run table empty l R) (k : Nat) (f : Filter) :
    (R.sessions.view k).IsAnswered f ((R.sessions.view k).select f) ∧
    ∀ n later R', Run table (R.opened n k f) later R' → (∀ k' f', .opens n k' f' ∉ later) →
      (answers n later = (List.range (answers n later).length).map fun i =>
        ((R.sessions.view k).select f)[i]?) ∧
      ∃ answer R'', Step table R' (.yields n answer) R'' := by
  constructor
  · obtain ⟨earlier, hk⟩ := (Sessions.isSound_empty.steps h.sessions).1.views k
    exact Timeline.isAnswered hk.now.strict f
  · intro n later R' hlater hl
    obtain ⟨hanswers, c, hc⟩ := hlater.answers_eq (R.opened_walk n k f) hl
    rw [Cursor.remaining_start] at hanswers
    exact ⟨hanswers, _, _, .yields hc⟩

/-- A second delta commit is appended while a walk is on its way, and the walk does not come to
it. -/
theorem walks_are_snapshots_of_append :
    ∃ (R R' : Readers) (before later : List Event), Run .sample empty before R ∧
      Run .sample (R.opened 0 0 .all) later R' ∧ (R'.sessions.view 0).count .all = 2 ∧
      (R.sessions.view 0).IsAnswered .all [.requested ⟨"001"⟩ .deltaCommit] ∧
      answers 0 later = [some (.requested ⟨"001"⟩ .deltaCommit), none] := by
  let first : Operation := .append (.requested ⟨"001"⟩ .deltaCommit) .empty none
  let second : Operation := .append (.requested ⟨"002"⟩ .deltaCommit) .empty none
  let S := ((Sessions.empty.begun .sample 0 first).turned [0]).returned 0
  let S' := ((S.begun .sample 0 second).turned [1]).returned 0
  have hfirst : first.IsSession := trivial
  have hsecond : second.IsSession := trivial
  have hS : Sessions.Steps .sample .empty S :=
    ((Sessions.steps_begun _ 0 hfirst).trans (Sessions.steps_turned _ _)).trans
      (Sessions.steps_returned _ _)
  have hS' : Sessions.Steps .sample S S' :=
    ((Sessions.steps_begun _ 0 hsecond).trans (Sessions.steps_turned _ _)).trans
      (Sessions.steps_returned _ _)
  have hselect : (S.view 0).select .all = [.requested ⟨"001"⟩ .deltaCommit] := by decide +kernel
  have hcount : (S'.view 0).count .all = 2 := by decide +kernel
  -- how the sessions came to this does not matter to the walk
  clear_value S' S
  obtain ⟨k, hbefore⟩ := exists_run hS empty.walk
  let R : Readers := ⟨S, empty.walk⟩
  obtain ⟨k', hacts⟩ := exists_run hS' (R.opened 0 0 .all).walk
  obtain ⟨x, y, walk, hasked⟩ := exists_run_of_yields .sample S' (R.opened_walk 0 0 .all)
  have hlater := hacts.append hasked
  obtain ⟨hanswered, hwalk⟩ := walks_are_snapshots hbefore 0 .all
  obtain ⟨hanswers, -⟩ := hwalk 0 _ _ hlater (by simp)
  have hlength :
      (answers 0 (List.replicate k' .acts ++ [.yields 0 x, .yields 0 y])).length = 2 := by
    simp [answers]
  rw [hselect] at hanswered
  rw [hlength, hselect] at hanswers
  exact ⟨R, ⟨S', walk⟩, _, _, hbefore, hlater, hcount, hanswered, hanswers⟩

end Readers
end CommitTimeline
