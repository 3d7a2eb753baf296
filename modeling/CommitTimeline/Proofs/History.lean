/-
# Histories of storage

Several tasks ask one storage. A history is what they asked and were answered, the
latest first, with what is stored then. Storage may fail at any request and then
stores nothing, it may list in any order, and the writer of a table may answer
anything; otherwise a request is answered from what is stored.

The object at a path is what was last written there, and its version the number of
writes (`History.Legal.find?_eq`). So what was read between a look at the version of
an object and a write under the condition of that version is still there when it is
overwritten (`History.Legal.read_eq`): nothing was written in between, by whomever.
-/

import CommitTimeline.Proofs.Json.RoundTrip
import CommitTimeline.Proofs.Program.Safety
import CommitTimeline.Storage.Objects

namespace CommitTimeline
namespace Exchange

/-- An object was read. -/
abbrev read (path : String) (data : Bytes) : Exchange :=
  ⟨.storage (.get path), .ok data⟩

/-- An object was described. -/
abbrev described (path : String) (known : Storage.Meta) : Exchange :=
  ⟨.storage (.head path), .ok (some known)⟩

/-- Objects were listed. -/
abbrev listed (start : String) (found : List Storage.Meta) : Exchange :=
  ⟨.storage (.list start), .ok found⟩

/-- An object was written. -/
abbrev stored (path : String) (data : Bytes) (condition : Storage.Precondition)
    (version : String) : Exchange :=
  ⟨.storage (.put path data condition), .ok (.stored version)⟩

/-- The writer merged what a plan says. -/
abbrev merged (timestamp : Timestamp) (plan : Plan) : Exchange :=
  ⟨.merge timestamp plan, .ok ()⟩

/-- What was written: the path and the data. -/
def write? : Exchange → Option (String × Bytes)
  | ⟨.storage (.put path data _), .ok (.stored _)⟩ => some (path, data)
  | _ => none

/-- Storage is left as it was, and the writer of the table was not asked. -/
def IsIdle (e : Exchange) : Prop :=
  e.write? = none ∧ ∃ r x, e = ⟨.storage r, x⟩

/-- What has written is a write that was not refused. -/
theorem exists_stored {e : Exchange} {path : String} {data : Bytes}
    (h : e.write? = some (path, data)) :
    ∃ condition version, e = stored path data condition version := by
  unfold write? at h
  split at h
  · obtain ⟨rfl, rfl⟩ := Prod.mk.inj (Option.some.inj h)
    exact ⟨_, _, rfl⟩
  · cases h

/-- The exchange is possible where the first objects are stored, and leaves the
second ones. -/
def Leads (s : Storage.Objects) (e : Exchange) (s' : Storage.Objects) : Prop :=
  match e with
  | ⟨.storage (.list start), .ok listed⟩ => listed.Perm (s.list start) ∧ s' = s
  | ⟨.storage r, .ok x⟩ => s.answer r = (.ok x, s')
  | _ => s' = s

end Exchange

/-- An exchange of one of several tasks. -/
structure Act where
  task : Nat
  exchange : Exchange

/-- A write to a path. -/
structure Write where
  task : Nat
  data : Bytes
  deriving DecidableEq

/-- What has been asked and answered, the latest first, and what is stored. -/
structure History where
  acts : List Act
  objects : Storage.Objects

namespace History

/-- Nothing has been asked, and nothing is stored. -/
def empty : History := ⟨[], .empty⟩

/-- A task asks and is answered. -/
inductive Step (task : Nat) : History → Exchange → History → Prop where
  | mk {acts : List Act} {s s' : Storage.Objects} {e : Exchange} (h : e.Leads s s') :
      Step task ⟨acts, s⟩ e ⟨⟨task, e⟩ :: acts, s'⟩

/-- The history can have come about. -/
inductive Legal : History → Prop where
  | empty : Legal empty
  | step {task : Nat} {h h' : History} {e : Exchange} (hl : Legal h) (hs : Step task h e h') :
      Legal h'

/-- What was written to a path, the latest first. -/
def writesAt (path : String) (acts : List Act) : List Write :=
  acts.filterMap fun a => match a.exchange.write? with
    | some (p, data) => if p = path then some ⟨a.task, data⟩ else none
    | none => none

/-- A task has looked at an object, read it and overwritten it, and nobody has written
to its path in between. -/
def Undisturbed (acts : List Act) (task : Nat) (path : String) (read data : Bytes) : Prop :=
  ∃ known version later between before earlier,
    acts = later ++ ⟨task, .stored path data (.version known.version) version⟩ ::
      (between ++ ⟨task, .read path read⟩ ::
        (before ++ ⟨task, .described path known⟩ :: earlier)) ∧
    writesAt path between = [] ∧ writesAt path before = []

/-- What one task has asked and been answered, the latest first. -/
def own (task : Nat) (acts : List Act) : List Exchange :=
  (acts.filter (·.task = task)).map (·.exchange)

/-- What comes later does not disturb what has been written. -/
theorem Undisturbed.cons {acts : List Act} {task : Nat} {path : String} {read data : Bytes}
    (h : Undisturbed acts task path read data) (a : Act) :
    Undisturbed (a :: acts) task path read data := by
  obtain ⟨known, version, later, between, before, earlier, rfl, hw⟩ := h
  exact ⟨known, version, a :: later, between, before, earlier, rfl, hw⟩

section Writes

variable {path : String} {a : Act} {acts acts' : List Act}

/-- What was written to a path in two parts of a history. -/
theorem writesAt_append :
    writesAt path (acts ++ acts') = writesAt path acts ++ writesAt path acts' :=
  List.filterMap_append

/-- An act that wrote nothing leaves what was written. -/
theorem writesAt_cons_of_idle (h : a.exchange.write? = none) :
    writesAt path (a :: acts) = writesAt path acts := by
  rw [writesAt, List.filterMap_cons_none (by rw [h])]
  rfl

/-- An act that wrote to the path is the latest write there. -/
theorem writesAt_cons_of_eq {data : Bytes} (h : a.exchange.write? = some (path, data)) :
    writesAt path (a :: acts) = ⟨a.task, data⟩ :: writesAt path acts := by
  rw [writesAt, List.filterMap_cons_some (b := ⟨a.task, data⟩) (by simp only [h, if_pos])]
  rfl

/-- An act that wrote elsewhere leaves what was written to the path. -/
theorem writesAt_cons_of_ne {p : String} {data : Bytes} (h : a.exchange.write? = some (p, data))
    (hp : p ≠ path) : writesAt path (a :: acts) = writesAt path acts := by
  rw [writesAt, List.filterMap_cons_none (by simp only [h, if_neg hp])]
  rfl

/-- A write to a path is an act of its task. -/
theorem mem_writesAt {w : Write} :
    w ∈ writesAt path acts ↔
      ∃ a ∈ acts, a.task = w.task ∧ a.exchange.write? = some (path, w.data) := by
  rw [writesAt, List.mem_filterMap]
  constructor
  · rintro ⟨a, ha, hw⟩
    split at hw
    · rename_i p data hd
      split at hw
      · rename_i hp
        obtain rfl := Option.some.inj hw
        exact ⟨a, ha, rfl, hp ▸ hd⟩
      · cases hw
    · cases hw
  · rintro ⟨a, ha, ht, hd⟩
    refine ⟨a, ha, ?_⟩
    rw [hd]
    simp only [if_pos, ht]

/-- What a task has just exchanged comes first among its own. -/
theorem own_cons_self {task : Nat} {e : Exchange} :
    own task (⟨task, e⟩ :: acts) = e :: own task acts := by
  simp [own]

/-- What another task has exchanged does not count. -/
theorem own_cons_of_ne {task task' : Nat} {e : Exchange} (h : task' ≠ task) :
    own task (⟨task', e⟩ :: acts) = own task acts := by
  simp [own, h]

/-- What a task exchanged in two parts of a history. -/
theorem own_append {task : Nat} : own task (acts ++ acts') = own task acts ++ own task acts' := by
  simp [own]

/-- What a task has exchanged are its acts. -/
theorem mem_own {task : Nat} {e : Exchange} : e ∈ own task acts ↔ ⟨task, e⟩ ∈ acts := by
  simp only [own, List.mem_map, List.mem_filter, decide_eq_true_eq]
  constructor
  · rintro ⟨⟨_, _⟩, ⟨ha, rfl⟩, rfl⟩
    exact ha
  · intro h
    exact ⟨_, ⟨h, rfl⟩, rfl⟩

/-- A task is found among the writes to a path as often as it has written there. -/
theorem count_task_writesAt (i : Nat) (path : String) (acts : List Act) :
    ((writesAt path acts).map (·.task)).count i =
      (own i acts).countP (fun e => e.write?.map (·.1) = some path) := by
  induction acts with
  | nil => rfl
  | cons a acts ih =>
    obtain ⟨j, e⟩ := a
    have hown : (own i (⟨j, e⟩ :: acts)).countP (fun e => e.write?.map (·.1) = some path) =
        (own i acts).countP (fun e => e.write?.map (·.1) = some path) +
          if j = i ∧ e.write?.map (·.1) = some path then 1 else 0 := by
      by_cases hj : j = i
      · subst hj
        rw [own_cons_self, List.countP_cons]
        simp only [decide_eq_true_eq, true_and]
      · rw [own_cons_of_ne hj, if_neg fun h => hj h.1, Nat.add_zero]
    rw [hown, ← ih]
    cases hw : e.write? with
    | none => rw [writesAt_cons_of_idle hw, if_neg fun h => Option.some_ne_none _ h.2.symm,
        Nat.add_zero]
    | some w =>
      obtain ⟨p, data⟩ := w
      by_cases hp : p = path
      · subst hp
        rw [writesAt_cons_of_eq hw, List.map_cons, List.count_cons]
        simp
      · rw [writesAt_cons_of_ne hw hp, if_neg fun h => hp (Option.some.inj h.2), Nat.add_zero]

/-- An act of a task comes where the task has acted so far. -/
theorem exists_of_own_eq {task : Nat} {e : Exchange} {l l' : List Exchange}
    (h : own task acts = l ++ e :: l') :
    ∃ m m', acts = m ++ ⟨task, e⟩ :: m' ∧ own task m = l ∧ own task m' = l' := by
  induction acts generalizing l with
  | nil => simp [own] at h
  | cons a acts ih =>
    obtain ⟨i, f⟩ := a
    by_cases hi : i = task
    · subst hi
      rw [own_cons_self] at h
      cases l with
      | nil =>
        obtain ⟨rfl, rfl⟩ := List.cons.inj h
        exact ⟨[], acts, rfl, rfl, rfl⟩
      | cons g l =>
        rw [List.cons_append, List.cons.injEq] at h
        obtain ⟨rfl, h⟩ := h
        obtain ⟨m, m', rfl, rfl, hm'⟩ := ih h
        exact ⟨_ :: m, m', rfl, own_cons_self, hm'⟩
    · rw [own_cons_of_ne hi] at h
      obtain ⟨m, m', rfl, rfl, hm'⟩ := ih h
      exact ⟨_ :: m, m', rfl, own_cons_of_ne hi, hm'⟩

end Writes

end History

namespace Exchange.Leads

variable {s s' : Storage.Objects} {path : String}

/-- A read gives what is stored under the path, and changes nothing. -/
theorem get {data : Bytes} (h : Leads s (read path data) s') :
    s' = s ∧ ∃ version, s.find? path = some ⟨data, version⟩ := by
  change s.answer (.get path) = (.ok data, s') at h
  cases ho : s.find? path with
  | none => simp [Storage.Objects.answer, ho] at h
  | some o =>
    simp only [Storage.Objects.answer, ho, Prod.mk.injEq] at h
    obtain ⟨hd, rfl⟩ := h
    obtain rfl := Except.ok.inj hd
    exact ⟨rfl, o.version, rfl⟩

/-- A look gives the version that is stored under the path, and changes nothing. -/
theorem head {known : Option Storage.Meta} (h : Leads s ⟨.storage (.head path), .ok known⟩ s') :
    s' = s ∧ known = (s.find? path).map (·.describe path) := by
  change s.answer (.head path) = (.ok known, s') at h
  simp only [Storage.Objects.answer, Prod.mk.injEq] at h
  exact ⟨h.2.symm, (Except.ok.inj h.1).symm⟩

/-- A put does in storage what storage makes of it. -/
theorem put {data : Bytes} {condition : Storage.Precondition} {written : Storage.Written}
    (h : Leads s ⟨.storage (.put path data condition), .ok written⟩ s') :
    s.put path data condition = (written, s') := by
  change s.answer (.put path data condition) = (.ok written, s') at h
  simp only [Storage.Objects.answer, Prod.mk.injEq] at h
  exact Prod.ext (Except.ok.inj h.1) h.2

/-- A write that happened was allowed, and shows at its path only. -/
theorem stored {data : Bytes} {condition : Storage.Precondition} {version : String}
    (h : Leads s (Exchange.stored path data condition version) s') :
    Storage.Objects.allows condition (s.find? path) = true ∧
      s' = s.insert path ⟨data, ((s.find? path).map (·.version)).getD 0 + 1⟩ := by
  have h := h.put
  simp only [Storage.Objects.put] at h
  split at h
  · rename_i hc
    exact ⟨hc, (Prod.mk.inj h).2.symm⟩
  · cases h

/-- What wrote nothing changed nothing. -/
theorem eq_of_idle {e : Exchange} (h : e.Leads s s') (he : e.write? = none) : s' = s := by
  obtain ⟨r, x⟩ := e
  cases r with
  | storage r =>
    cases r with
    | list start =>
      cases x with
      | error e => exact h
      | ok x => exact h.2
    | get path =>
      cases x with
      | error e => exact h
      | ok x => exact h.get.1
    | head path =>
      cases x with
      | error e => exact h
      | ok x => exact h.head.1
    | put path data condition =>
      cases x with
      | error e => exact h
      | ok x =>
        cases x with
        | stored version => cases he
        | conflict current =>
          have h := h.put
          simp only [Storage.Objects.put] at h
          split at h
          · cases h
          · exact (Prod.mk.inj h).2.symm
  | ingest t b => exact h
  | merge t p => exact h
  | report e => exact h

/-- What was written is stored, with the next version. -/
theorem of_write? {e : Exchange} {data : Bytes} (h : e.Leads s s')
    (he : e.write? = some (path, data)) :
    s' = s.insert path ⟨data, ((s.find? path).map (·.version)).getD 0 + 1⟩ := by
  obtain ⟨condition, version, rfl⟩ := exists_stored he
  exact h.stored.2

end Exchange.Leads

namespace History.Legal

variable {h : History} {path : String}

/-- **What is stored is what was last written,** and its version counts the writes. -/
theorem find?_eq (hl : h.Legal) (path : String) :
    h.objects.find? path = match writesAt path h.acts with
      | [] => none
      | w :: ws => some ⟨w.data, ws.length + 1⟩ := by
  induction hl with
  | empty => rfl
  | @step task _ _ e hl hs ih =>
    obtain @⟨acts, s, s', _, he⟩ := hs
    change s.find? path = _ at ih
    show s'.find? path = _
    cases hw : e.write? with
    | none => rw [writesAt_cons_of_idle hw, he.eq_of_idle hw, ih]
    | some w =>
      obtain ⟨p, data⟩ := w
      rw [he.of_write? hw, Storage.Objects.find?_insert]
      by_cases hp : p = path
      · subst hp
        rw [if_pos rfl, writesAt_cons_of_eq hw, ih]
        cases writesAt p acts <;> rfl
      · rw [if_neg (Ne.symm hp), writesAt_cons_of_ne hw hp, ih]

/-- A history has been legal from its start. -/
theorem of_append {acts : List Act} {a : Act} :
    ∀ {l : List Act} {s : Storage.Objects}, Legal ⟨l ++ a :: acts, s⟩ →
      ∃ s₀ s₁, Legal ⟨acts, s₀⟩ ∧ a.exchange.Leads s₀ s₁ ∧ Legal ⟨a :: acts, s₁⟩
  | [], s, hl => by
    cases hl with
    | @step _ h _ _ hl hs =>
      cases hs with
      | mk he => exact ⟨_, s, hl, he, .step hl ⟨he⟩⟩
  | b :: l, s, hl => by
    cases hl with
    | step hl hs =>
      cases hs
      exact of_append hl

/-- The acts up to some moment are a legal history. -/
theorem of_suffix {acts : List Act} :
    ∀ {l : List Act} {s : Storage.Objects}, Legal ⟨l ++ acts, s⟩ → ∃ s₀, Legal ⟨acts, s₀⟩
  | [], s, hl => ⟨s, hl⟩
  | b :: l, s, hl => by
    cases hl with
    | step hl hs =>
      cases hs
      exact of_suffix hl

/-- What is read is what was last written. -/
theorem get {task : Nat} {acts l : List Act} {data : Bytes} {s : Storage.Objects}
    (hl : Legal ⟨l ++ ⟨task, .read path data⟩ :: acts, s⟩) :
    ∃ w ws, writesAt path acts = w :: ws ∧ w.data = data := by
  obtain ⟨s₀, s₁, hl, he, -⟩ := of_append hl
  obtain ⟨version, hf⟩ := (Exchange.Leads.get he).2
  have hw := hl.find?_eq path
  change s₀.find? path = _ at hw
  rw [hf] at hw
  split at hw
  · cases hw
  · rename_i w ws h
    exact ⟨w, ws, h, congrArg Storage.Object.data (Option.some.inj hw).symm⟩

/-- A description gives the number of writes as the version. -/
theorem head {task : Nat} {acts l : List Act} {known : Storage.Meta} {s : Storage.Objects}
    (hl : Legal ⟨l ++ ⟨task, .described path known⟩ :: acts, s⟩) :
    known.version = String.ofList (Text.numeral (writesAt path acts).length) := by
  obtain ⟨s₀, s₁, hl, he, -⟩ := of_append hl
  have hk := (Exchange.Leads.head he).2
  have hw := hl.find?_eq path
  change s₀.find? path = _ at hw
  rw [hw] at hk
  split at hk
  · cases hk
  · rename_i w ws h
    rw [h, Option.some.inj hk]
    rfl

/-- Where nothing may be, nothing has been written before. -/
theorem put_absent {task : Nat} {acts l : List Act} {data : Bytes} {version : String}
    {s : Storage.Objects}
    (hl : Legal ⟨l ++ ⟨task, .stored path data .absent version⟩ :: acts,
      s⟩) : writesAt path acts = [] := by
  obtain ⟨s₀, s₁, hl, he, -⟩ := of_append hl
  have ha := (Exchange.Leads.stored he).1
  have hw := hl.find?_eq path
  change s₀.find? path = _ at hw
  rw [hw] at ha
  split at ha
  · assumption
  · cases ha

/-- A write under the condition of a version comes after that many writes. -/
theorem put_version {task n : Nat} {acts l : List Act} {data : Bytes} {version : String}
    {s : Storage.Objects}
    (hl : Legal ⟨l ++ ⟨task, .stored path data
      (.version (String.ofList (Text.numeral n))) version⟩ :: acts, s⟩) :
    (writesAt path acts).length = n := by
  obtain ⟨s₀, s₁, hl, he, -⟩ := of_append hl
  have ha := (Exchange.Leads.stored he).1
  have hw := hl.find?_eq path
  change s₀.find? path = _ at hw
  rw [hw] at ha
  split at ha
  · cases ha
  · rename_i w ws h
    have hn : Text.integer? (Text.numeral n) = some ((ws.length + 1 : Nat) : Int) := by
      simpa [Storage.Objects.allows, Storage.Object.isNamedBy] using ha
    rw [Text.integer?_numeral, Option.some.injEq, Int.ofNat_inj] at hn
    rw [h, hn, List.length_cons]

/-- **No lost update:** if a task looks at the version of an object, reads it and
overwrites it under the condition of this version, then what it overwrites is what it
read, and nobody has written in between. -/
theorem read_eq {task : Nat} {acts before between l : List Act} {known : Storage.Meta}
    {read data : Bytes} {version : String} {s : Storage.Objects}
    (hl : Legal ⟨l ++ ⟨task, .stored path data (.version known.version) version⟩ ::
        (between ++ ⟨task, .read path read⟩ ::
          (before ++ ⟨task, .described path known⟩ :: acts)), s⟩) :
    writesAt path between = [] ∧ writesAt path before = [] ∧
      ∃ w ws, writesAt path acts = w :: ws ∧ w.data = read := by
  obtain ⟨s₀, s₁, hp, -, -⟩ := of_append hl
  obtain ⟨s₂, s₃, hg, -, -⟩ := of_append hp
  have hk := head hg
  rw [hk] at hl
  have hn := put_version hl
  rw [writesAt_append, writesAt_cons_of_idle rfl, writesAt_append, writesAt_cons_of_idle rfl,
    List.length_append, List.length_append] at hn
  have hbetween : writesAt path between = [] := List.eq_nil_of_length_eq_zero (by omega)
  have hbefore : writesAt path before = [] := List.eq_nil_of_length_eq_zero (by omega)
  have hread := get hp
  rw [writesAt_append, hbefore, writesAt_cons_of_idle rfl] at hread
  exact ⟨hbetween, hbefore, hread⟩

end History.Legal
end CommitTimeline
