/-
# What any call writes

Whatever is called, every write requests an instant where nothing was, or takes a step of
the marker that was read (`Session.Stepwise`). So, however the calls of a pool overlap and
wherever they stop, what was written for a timestamp are the stages of one instant
(`Pool.Reachable.exists_stages_of_any`), and a compaction that is outstanding has been so
since it was requested (`Pool.Reachable.allOutstanding`).
-/

import CommitTimeline.Proofs.Compaction.Agreement
import CommitTimeline.Proofs.Compaction.Order
import CommitTimeline.Proofs.Session.Lifecycle

namespace CommitTimeline

namespace Session

/-- An instant is requested. -/
def Requests (m : Marker) : Prop :=
  m.instant.state = .requested

/-- An instant takes a step. -/
def Advances (instant : Instant) (target : State) (_ : Option Details) : Prop :=
  instant.state.Leads target

/-- Every write requests an instant, or takes a step of what was read. -/
def Stepwise (table : Table) : List Exchange → Prop
  | [] => True
  | e :: before => (e.write? ≠ none → ∃ m, History.Written table Requests Advances before m e) ∧
      Stepwise table before

variable {table : Table} {own before : List Exchange} {e : Exchange}

/-- In stepwise exchanges every write puts a marker that is requested, or advanced by a step. -/
theorem Stepwise.written :
    ∀ {l : List Exchange}, Stepwise table (l ++ e :: before) → e.write? ≠ none →
      ∃ m, History.Written table Requests Advances before m e
  | [], h => h.1
  | _ :: _, h => written h.2

/-- Exchanges that write nothing are stepwise. -/
theorem stepwise_of_idle (h : ∀ e ∈ own, e.write? = none) : Stepwise table own := by
  induction own with
  | nil => trivial
  | cons e own ih =>
    refine ⟨fun hw => absurd (h e List.mem_cons_self) hw, ih ?_⟩
    intro f hf
    exact h f (List.mem_cons_of_mem e hf)

/-- Sound exchanges of a coordinator are stepwise. -/
theorem stepwise_of_sound (h : Compaction.Sound table own) : Stepwise table own := by
  induction own with
  | nil => trivial
  | cons e own ih =>
    refine ⟨?_, ih h.2⟩
    intro hw
    obtain ⟨m, hm, -⟩ := h.1.write hw
    exact ⟨m, hm.imp (fun _ hb => hb.1) fun _ _ _ hs => hs.1⟩

end Session

namespace Operation

/-- What a session does for an operation is stepwise. -/
theorem stepwise_of_does {op : Operation} {table : Table} {own : List Exchange}
    (h : op.Does table own) : Session.Stepwise table own := by
  cases op with
  | append instant details requestedAt =>
    obtain ⟨hs, version, rfl⟩ := h
    exact ⟨fun _ => ⟨_, .created hs⟩, trivial⟩
  | transition instant target details =>
    obtain ⟨hl, current, m, hm⟩ := h
    obtain ⟨known, data, version, -, rfl⟩ := hm.exchanges
    refine ⟨fun _ => ⟨m, .moved hm (List.append_nil _).symm hl⟩, ?_⟩
    exact Session.stepwise_of_idle (by simp [Exchange.write?])
  | _ => exact Session.stepwise_of_idle h.not_write

/-- **Whatever is called writes step by step.** -/
theorem safe_stepwise {op : Operation} {table : Table} {v : Timeline} :
    (op.call table).Safe Alone (Session.Stepwise table) (fun _ => Session.Stepwise table)
      (fun _ _ own => Session.Stepwise table own) v [] := by
  by_cases hs : op.IsSession
  · exact (safe_does hs).mono (fun _ hi => Session.stepwise_of_idle hi.not_write)
      (fun _ _ hi => Session.stepwise_of_idle hi.not_write) fun _ _ _ hd => stepwise_of_does hd
  · have hspares : op.SparesCompactions := by
      cases op with
      | append | transition => exact absurd trivial hs
      | _ => trivial
    refine (safe_call hspares).mono (fun _ h => Session.stepwise_of_sound h.sound) ?_
      fun _ _ _ h => Session.stepwise_of_sound h.1.sound
    rintro e own (h | ⟨timestamp, plan, x, before, -, h, -⟩)
    · exact Session.stepwise_of_sound h.sound
    · exact Session.stepwise_of_sound h

end Operation

/-- What was written to a path was written there once first. -/
theorem History.exists_first_write {path : String} {acts : List Act}
    (h : writesAt path acts ≠ []) :
    ∃ later a before, acts = later ++ a :: before ∧
      (∃ data, a.exchange.write? = some (path, data)) ∧ writesAt path before = [] := by
  induction acts with
  | nil => exact absurd rfl h
  | cons a acts ih =>
    by_cases hn : writesAt path acts = []
    · refine ⟨[], a, acts, rfl, ?_, hn⟩
      obtain ⟨w, hw⟩ := List.exists_mem_of_ne_nil _ h
      obtain ⟨b, hb, -, hdata⟩ := mem_writesAt.1 hw
      rcases List.mem_cons.1 hb with rfl | hb
      · exact ⟨_, hdata⟩
      · have hmem : ⟨b.task, w.data⟩ ∈ writesAt path acts := mem_writesAt.2 ⟨b, hb, rfl, hdata⟩
        rw [hn] at hmem
        cases hmem
    · obtain ⟨later, b, before, rfl, hb⟩ := ih hn
      exact ⟨a :: later, b, before, rfl, hb⟩

namespace Pool

/-- Any sessions, with any views, make any calls. -/
def anyone (_ : Pool) (_ : Table) (_ : Operation) (_ : Timeline) : Prop :=
  True

/-- The marker is stored in the table, wherever. -/
def Stores (P : Pool) (table : Table) (m : Marker) : Prop :=
  ∃ path version, P.history.objects.find? (table.place path) = some ⟨m.encode, version⟩

/-- Everything that was written for the timestamp is a marker of it that is outstanding. -/
def AllOutstanding (table : Table) (t : Timestamp) (acts : List Act) : Prop :=
  ∀ w ∈ History.writesAt (table.markerAt t) acts, ∃ m : Marker,
    w.data = m.encode ∧ m.timestamp = t ∧ m.IsOutstanding

namespace Reachable

variable {P : Pool} {i : Nat} {task : Task} {table : Table} {t : Timestamp} {m : Marker}
  {acts before later : List Act} {e : Exchange}

/-- The history of a run is legal. -/
theorem legal_acts (h : Reachable anyone P) (ha : P.history.acts = acts) :
    History.Legal ⟨acts, P.history.objects⟩ :=
  ha ▸ h.legal

/-- What was read had been written. -/
theorem exists_write_of_read (h : Reachable anyone P) {path : String} {data : Bytes}
    (hr : ⟨i, .read path data⟩ ∈ P.history.acts) :
    ∃ w ∈ History.writesAt path P.history.acts, w.data = data := by
  obtain ⟨later, before, ha⟩ := List.append_of_mem hr
  obtain ⟨w, ws, hw, hdata⟩ := (h.legal_acts ha).get
  refine ⟨w, ?_, hdata⟩
  rw [ha, History.writesAt_append, History.writesAt_cons_of_idle rfl, hw]
  exact List.mem_append_right _ List.mem_cons_self

/-- Whatever is called, the exchanges of a task are stepwise. -/
theorem stepwise_own (h : Reachable anyone P) (hi : P.tasks[i]? = some task) :
    Session.Stepwise task.table (P.own i) := by
  have hc := h.conforms (fun _ => Operation.safe_stepwise) hi
  split at hc
  · exact hc
  · rename_i r hr
    obtain ⟨x | r, v⟩ := r
    · exact hc
    · exact hc

/-- Every write of a run puts a marker that is requested, or advanced by a step. -/
theorem exists_written (h : Reachable anyone P) (ha : P.history.acts = later ++ ⟨i, e⟩ :: before)
    (hw : e.write? ≠ none) :
    ∃ table m, History.Written table Session.Requests Session.Advances (History.own i before)
      m e := by
  have hown : P.own i = History.own i later ++ e :: History.own i before := by
    rw [own, ha, History.own_append, History.own_cons_self]
  have he : e ∈ P.own i := by
    rw [hown]
    exact List.mem_append_right _ List.mem_cons_self
  obtain ⟨task, hi⟩ := h.exists_task he
  exact ⟨task.table, Session.Stepwise.written (hown ▸ h.stepwise_own hi) hw⟩

/-- **What was written for a timestamp are the stages of one instant.** -/
theorem exists_stages_of_any (h : Reachable anyone P) (table : Table) (t : Timestamp) :
    ∃ stages : List Stage,
      (History.writesAt (table.markerAt t) P.history.acts).reverse = stages.map Stage.write ∧
      (∀ a ∈ stages, a.marker.timestamp = t) ∧
      stages.IsChain (History.Follows P.history.acts table fun _ => Session.Advances) := by
  have hwritten : ∀ later i e before data, P.history.acts = later ++ ⟨i, e⟩ :: before →
      e.write? = some (table.markerAt t, data) → ∃ m,
        History.Written table Session.Requests Session.Advances (History.own i before) m e := by
    intro later i e before data ha hw
    obtain ⟨table', m, hm⟩ := h.exists_written ha (by rw [hw]; exact Option.some_ne_none _)
    have hpath := hm.write?
    rw [hw, Option.some.injEq, Prod.mk.injEq] at hpath
    obtain ⟨rfl, -⟩ := Table.markerAt_inj hpath.1
    exact ⟨m, hm⟩
  obtain ⟨stages, hwrites, htime, -, hchain⟩ := h.legal.exists_stages t hwritten
  exact ⟨stages, hwrites, htime, hchain⟩

/-- What is stored of a table is a marker at its place. -/
theorem exists_write_of_stores (h : Reachable anyone P) (hs : P.Stores table m) :
    ∃ w ws, History.writesAt (table.markerAt m.timestamp) P.history.acts = w :: ws ∧
      w.data = m.encode := by
  obtain ⟨path, version, hf⟩ := hs
  have hw := h.legal.find?_eq (table.place path)
  rw [hf] at hw
  split at hw
  · cases hw
  · rename_i w ws hws
    have hdata : w.data = m.encode := congrArg Storage.Object.data (Option.some.inj hw).symm
    have hmem : w ∈ History.writesAt (table.place path) P.history.acts := by
      rw [hws]
      exact List.mem_cons_self
    obtain ⟨⟨i, e⟩, ha, -, he⟩ := History.mem_writesAt.1 hmem
    obtain ⟨later, before, hacts⟩ := List.append_of_mem ha
    obtain ⟨table', m', hm⟩ := h.exists_written hacts (by rw [he]; exact Option.some_ne_none _)
    have hpath := hm.write?
    rw [he, Option.some.injEq, Prod.mk.injEq, hdata] at hpath
    obtain rfl := Marker.encode_injective hpath.2
    obtain ⟨rfl, -⟩ := Table.place_inj hpath.1
    exact ⟨w, ws, hpath.1 ▸ hws, hdata⟩

/-- One marker is stored for a timestamp. -/
theorem eq_of_stores {m' : Marker} (h : Reachable anyone P) (hs : P.Stores table m)
    (hs' : P.Stores table m') (ht : m.timestamp = m'.timestamp) : m = m' := by
  obtain ⟨w, ws, hw, hdata⟩ := h.exists_write_of_stores hs
  obtain ⟨w', ws', hw', hdata'⟩ := h.exists_write_of_stores hs'
  rw [ht, hw'] at hw
  obtain ⟨rfl, -⟩ := List.cons.inj hw
  exact Marker.encode_injective (hdata.symm.trans hdata')

/-- **A compaction that is outstanding has been so since it was requested.** -/
theorem allOutstanding (h : Reachable anyone P) (hs : P.Stores table m) (ho : m.IsOutstanding) :
    AllOutstanding table m.timestamp P.history.acts := by
  obtain ⟨w, ws, hw, hdata⟩ := h.exists_write_of_stores hs
  obtain ⟨stages, hwrites, htime, hchain⟩ := h.exists_stages_of_any table m.timestamp
  have hsplit := hwrites
  rw [hw, List.reverse_cons] at hsplit
  obtain ⟨l, l', rfl, -, hlast⟩ := List.map_eq_append_iff.1 hsplit.symm
  obtain ⟨a, rfl, rfl⟩ := List.map_eq_singleton_iff.1 hlast
  obtain rfl : a.marker = m := Marker.encode_injective hdata
  have hall := hchain.backwards_induction (fun b => b.marker.IsOutstanding) _
    (by
      rintro b c ⟨-, target, details, hl, hc⟩ hco
      exact Marker.isOutstanding_of_after (hc ▸ hco) hl)
    (by
      intro hne
      rw [List.getLast_append_singleton]
      exact ho)
  intro w hw
  rw [← List.mem_reverse, hwrites, List.mem_map] at hw
  obtain ⟨b, hb, rfl⟩ := hw
  exact ⟨b.marker, rfl, htime b hb, hall b hb⟩

/-- The first write of all for a timestamp has created its marker. -/
theorem exists_creation (h : Reachable anyone P)
    (hne : History.writesAt (table.markerAt t) P.history.acts ≠ []) :
    ∃ later i e before, P.history.acts = later ++ ⟨i, e⟩ :: before ∧
      e.creation?.map (·.1) = some (table.markerAt t) := by
  obtain ⟨later, ⟨i, e⟩, before, ha, ⟨data, hw⟩, hfirst⟩ := History.exists_first_write hne
  refine ⟨later, i, e, before, ha, ?_⟩
  obtain ⟨table', m, hm⟩ := h.exists_written ha (by rw [hw]; exact Option.some_ne_none _)
  have hpath := hm.write?
  rw [hw, Option.some.injEq, Prod.mk.injEq] at hpath
  cases hm with
  | created hb =>
    rw [hpath.1]
    rfl
  | moved hm hb hs =>
    -- a step overwrites what was written before
    obtain ⟨s, hl⟩ := (h.legal_acts ha).of_suffix
    obtain ⟨w, ws, hws, -⟩ := History.Legal.eq_of_moves hl hm hb
    rw [← hm.timestamp, ← hpath.1, hfirst] at hws
    cases hws

end Reachable
end Pool
end CommitTimeline
