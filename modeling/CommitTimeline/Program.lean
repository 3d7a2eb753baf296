/-
# Programs

A program is what a call on a timeline does to the outside, step by step: it asks
for something (storage, the writer of the table, a report), gets an answer and
goes on. The same program can be run at one stretch by `run`, or one request at a
time with other programs in between.

`Program` is a lawful monad, and running it follows the order of its parts
(`Program.run_bind`).
-/

import CommitTimeline.Batch
import CommitTimeline.Event
import CommitTimeline.Storage.Request

namespace CommitTimeline

/-- What a program can ask for. -/
inductive Request where
  | storage (r : Storage.Request)
  /-- The writer writes the records of a delta commit. -/
  | ingest (timestamp : Timestamp) (batch : Batch)
  /-- The writer merges what a plan says. -/
  | merge (timestamp : Timestamp) (plan : Plan)
  /-- Something is reported. -/
  | report (e : Event)

/-- The answer to a request. -/
def Request.Answer : Request → Type
  | .storage r => r.Answer
  | .ingest .. => Except Error CommitMetadata
  | .merge .. => Except Error Unit
  | .report _ => Unit

/-- A result, or a request and how to go on from its answer. -/
inductive Program (α : Type) : Type where
  | done (a : α)
  | ask (r : Request) (next : r.Answer → Program α)

namespace Program

variable {α β γ : Type}

/-- Goes on after the result. -/
def bind : Program α → (α → Program β) → Program β
  | done a, f => f a
  | ask r next, f => ask r fun x => (next x).bind f

instance : Monad Program where
  pure := done
  bind := bind

/-- Nothing to do afterwards changes nothing. -/
theorem bind_done (p : Program α) : p.bind done = p := by
  induction p with
  | done a => rfl
  | ask r next ih => simp only [bind, ih]

/-- In three programs one after the other it does not matter which two are put together first. -/
theorem bind_assoc (p : Program α) (f : α → Program β) (g : β → Program γ) :
    (p.bind f).bind g = p.bind fun a => (f a).bind g := by
  induction p with
  | done a => rfl
  | ask r next ih => simp only [bind, ih]

instance : LawfulMonad Program :=
  LawfulMonad.mk' Program (fun p => bind_done p) (fun _ _ => rfl) fun p f g => bind_assoc p f g

/-- Asks for something and gives the answer. -/
def request (r : Request) : Program r.Answer :=
  ask r done

/-- Asks storage. -/
def storage (r : Storage.Request) : Program r.Answer :=
  request (.storage r)

/-- The program, with its log records inside one more span. -/
def within (span : Span) : Program α → Program α
  | done a => done a
  | ask (.storage r) next => ask (.storage r) fun x => (next x).within span
  | ask (.ingest t b) next => ask (.ingest t b) fun x => (next x).within span
  | ask (.merge t p) next => ask (.merge t p) fun x => (next x).within span
  | ask (.report e) next => ask (.report (e.within span)) fun x => (next x).within span

/-- Runs a program at one stretch in an outside of type `σ`. -/
def run {σ : Type} (answer : (r : Request) → σ → r.Answer × σ) : Program α → σ → α × σ
  | done a, s => (a, s)
  | ask r next, s =>
    let (x, s) := answer r s
    (next x).run answer s

/-- **Running follows the order of programs:** what comes second runs in the outside
that the first leaves. -/
theorem run_bind {σ : Type} (answer : (r : Request) → σ → r.Answer × σ) (p : Program α)
    (f : α → Program β) (s : σ) :
    (p.bind f).run answer s = (f (p.run answer s).1).run answer (p.run answer s).2 := by
  induction p generalizing s with
  | done a => rfl
  | ask r next ih => simp only [bind, run, ih]

end Program
end CommitTimeline
