/-
# Tables do not meet

The tables of one storage share nothing (`Table.isolated`). Whatever is done to one of
them, by paths that are accepted or not or by the calls of sessions, pipelines and
coordinators, and however often it fails, what is read, described, written and listed in
another one afterwards is what it would have been without it. A listing gives the paths
inside the table that start with the given text, each once and with the version that is
stored. And a call writes markers only, each at the place of its timestamp and under a
condition on what is there.

A path in storage tells the table and the path inside it, whether one name starts with the
other or not (`Table.place_inj`). So a request of one table leaves the objects of every
other one as they were (`Program.Leads.agrees`), and an access gives the same wherever the
objects of its own table agree (`Table.Access.run_congr`).
-/

import CommitTimeline.Proofs.Program.Leads
import CommitTimeline.Proofs.Program.Requests
import CommitTimeline.Proofs.Session.Serial

namespace CommitTimeline

namespace Table

/-- An access to the objects of a table. -/
inductive Access where
  | get (path : String)
  | head (path : String)
  | put (path : String) (data : Bytes) (condition : Storage.Precondition)
  | list (start : String)

/-- What an access gives. -/
inductive Access.Result where
  | contents (x : Except StorageError Bytes)
  | known (x : Except StorageError (Option Storage.Meta))
  | written (x : Except StorageError Storage.Written)
  | listed (x : Except StorageError (List (String × String)))
  deriving DecidableEq

/-- The program of an access. -/
def Access.program (t : Table) : Access → Program Access.Result
  | get path => do return .contents (← t.get path)
  | head path => do return .known (← t.head path)
  | put path data condition => do return .written (← t.put path data condition)
  | list start => do return .listed (← t.list start)

/-- What an access gives in calm, and what is stored then. -/
def Access.run (o : Calm) (t : Table) (a : Access) (s : Storage.Objects) :
    Access.Result × Storage.Objects :=
  Prod.map id Scene.objects ((a.program t).run o.answer ⟨s, []⟩)

/-- What accesses give in calm, one after the other, and what is stored then. -/
def Access.replay (o : Calm) (t : Table) :
    List Access → Storage.Objects → List Access.Result × Storage.Objects
  | [], s => ([], s)
  | a :: as, s =>
    let (x, s) := a.run o t s
    let (xs, s) := replay o t as s
    (x :: xs, s)

/-- Something was done to a table, by an access or by a call, and storage may have failed. -/
inductive Touches (t : Table) (s s' : Storage.Objects) : Prop where
  | access {a : Access} {x : Access.Result} (h : (a.program t).Leads s x s')
  | opening {r : Except Error Timeline} (h : (Session.load t).Leads s r s')
  | call {op : Operation} {v w : Timeline} {r : Except Error Reply}
      (h : ((op.call t).program v).Leads s (r, w) s')

/-- Accesses to one table and what they give in calm, while another table is touched before,
between and after them. -/
inductive Visits (o : Calm) (t u : Table) :
    Storage.Objects → List (Access × Access.Result) → Storage.Objects → Prop where
  | done {s : Storage.Objects} : Visits o t u s [] s
  | touch {s s' s'' : Storage.Objects} {l : List (Access × Access.Result)} (ht : t.Touches s s')
      (h : Visits o t u s' l s'') : Visits o t u s l s''
  | access {s s'' : Storage.Objects} {l : List (Access × Access.Result)} (a : Access)
      (h : Visits o t u (a.run o u s).2 l s'') :
      Visits o t u s ((a, (a.run o u s).1) :: l) s''

end Table

namespace Request

/-- A request of a table to storage is about a path of its own. -/
def IsOf (table : Table) : Request → Prop
  | .storage r => ∃ path, r.path = table.place path
  | _ => True

/-- What an operation may ask for on a table is a request of this table. -/
theorem isOf_of_asked {table : Table} {r : Request} (h : Operation.Asked table r) :
    r.IsOf table := by
  cases h with
  | session h => cases h <;> first | exact ⟨_, rfl⟩ | trivial
  | _ => trivial

end Request

namespace Storage.Objects

variable {s s' s'' : Objects} {t u : Table} {start : String}

/-- The objects of a table are the same. -/
def Agrees (u : Table) (s s' : Objects) : Prop :=
  ∀ path, s'.find? (u.place path) = s.find? (u.place path)

/-- The objects of a table agree with themselves. -/
theorem Agrees.refl (u : Table) (s : Objects) : Agrees u s s :=
  fun _ => rfl

/-- Agreement goes both ways. -/
theorem Agrees.symm (h : Agrees u s s') : Agrees u s' s :=
  fun path => (h path).symm

/-- Agreement carries over from one to the next. -/
theorem Agrees.trans (h : Agrees u s s') (h' : Agrees u s' s'') : Agrees u s s'' :=
  fun path => (h' path).trans (h path)

/-- The same is written. -/
theorem Agrees.insert (h : Agrees u s s') (path : String) (o : Object) :
    Agrees u (s.insert path o) (s'.insert path o) := by
  intro p
  rw [find?_insert, find?_insert, h p]

/-- What is found among the objects whose paths are selected. -/
theorem lookup_filter (q : String → Bool) (l : List (String × Object)) (p : String) :
    (l.filter fun e => q e.1).lookup p = if q p then l.lookup p else none := by
  induction l with
  | nil =>
    rw [List.filter_nil, List.lookup_nil]
    split <;> rfl
  | cons e l ih =>
    rw [lookup_cons, List.filter_cons]
    by_cases hp : p = e.1
    · subst hp
      by_cases he : q e.1 = true
      · rw [if_pos he, if_pos he, lookup_cons, if_pos rfl, if_pos rfl]
      · rw [if_neg he, if_neg he, ih, if_neg he]
    · rw [if_neg hp]
      split
      · rw [lookup_cons, if_neg hp, ih]
      · exact ih

/-- The same is listed. -/
theorem Agrees.list (h : Agrees u s s') (start : String) :
    s'.list (u.place start) = s.list (u.place start) := by
  have hentries : (s'.entries.filter fun e => (u.place start).toList.isPrefixOf e.1.toList) =
      s.entries.filter fun e => (u.place start).toList.isPrefixOf e.1.toList := by
    refine eq_of_lookup_eq (s'.sorted.filter _) (s.sorted.filter _) ?_
    intro p
    rw [lookup_filter fun p => (u.place start).toList.isPrefixOf p.toList,
      lookup_filter fun p => (u.place start).toList.isPrefixOf p.toList]
    split
    · rename_i hp
      obtain ⟨r, hr⟩ := List.isPrefixOf_iff_prefix.1 hp
      have hplace : p = u.place (start ++ String.ofList r) := by
        apply String.toList_inj.1
        rw [← hr]
        simp [Table.place]
      rw [hplace]
      exact h _
    · rfl
  rw [Objects.list, Objects.list, hentries]

end Storage.Objects

open Storage.Objects (Agrees)

/-- A request of one table leaves the others as they were. -/
theorem Exchange.Leads.agrees {e : Exchange} {s s' : Storage.Objects} {t u : Table}
    (h : e.Leads s s') (he : e.request.IsOf t) (hne : t ≠ u) : Agrees u s s' := by
  cases hw : e.write? with
  | none => exact h.eq_of_idle hw ▸ .refl u s
  | some w =>
    obtain ⟨path, data⟩ := w
    obtain ⟨condition, version, rfl⟩ := Exchange.exists_stored hw
    obtain ⟨p, hp⟩ : ∃ p, path = t.place p := he
    intro q
    rw [h.stored.2, Storage.Objects.find?_insert, if_neg]
    exact fun hq => hne (Table.place_inj (hq.trans hp)).1.symm

/-- **A program of one table leaves the others as they were,** whatever it comes to. -/
theorem Program.Leads.agrees {α : Type} {p : Program α} {s s' : Storage.Objects} {a : α}
    {t u : Table} (h : p.Leads s a s') (hp : p.Asks (Request.IsOf t)) (hne : t ≠ u) :
    Agrees u s s' := by
  induction h with
  | done => exact .refl u _
  | ask he _ ih =>
    cases hp with
    | ask hr hp => exact (he.agrees hr hne).trans (ih (hp _))

namespace Calm

variable {o : Calm} {u : Table} {s s' : Scene}

/-- Storage gives the same where the objects of the table agree, and they agree then. -/
theorem storage_congr {s s' : Storage.Objects} (h : Agrees u s s') {r : Storage.Request}
    (hr : ∃ path, r.path = u.place path) (o : Calm) :
    (o.storage s' r).1 = (o.storage s r).1 ∧ Agrees u (o.storage s r).2 (o.storage s' r).2 := by
  obtain ⟨path, hr⟩ := hr
  cases r with
  | list start =>
    obtain rfl : start = u.place path := hr
    refine ⟨?_, h⟩
    show Except.ok (o.arrange (s'.list _)) = Except.ok (o.arrange (s.list _))
    rw [h.list]
  | get _ =>
    obtain rfl := hr
    simp only [storage, Storage.Objects.answer, h path]
    cases s.find? (u.place path) with
    | none => exact ⟨rfl, h⟩
    | some object => exact ⟨rfl, h⟩
  | head _ =>
    obtain rfl := hr
    simp only [storage, Storage.Objects.answer, h path]
    exact ⟨trivial, h⟩
  | put _ data condition =>
    obtain rfl := hr
    simp only [storage, Storage.Objects.answer, Storage.Objects.put, h path]
    split
    · exact ⟨rfl, h.insert _ _⟩
    · exact ⟨rfl, h⟩

/-- **A program of a table comes to the same where the objects of the table agree,** and they
agree then. -/
theorem run_congr {α : Type} {p : Program α} (hp : p.Asks (Request.IsOf u))
    (h : Agrees u s.objects s'.objects) (o : Calm) :
    (p.run o.answer s').1 = (p.run o.answer s).1 ∧
      Agrees u (p.run o.answer s).2.objects (p.run o.answer s').2.objects := by
  induction hp generalizing s s' with
  | done => exact ⟨rfl, h⟩
  | @ask r next hr _ ih =>
    cases r with
    | storage r =>
      obtain ⟨hx, hs⟩ := storage_congr h hr o
      have hrun : (Program.ask (.storage r) next).run o.answer s' =
          (next (o.storage s.objects r).1).run o.answer (o.answer (.storage r) s').2 := by
        rw [← hx]
        rfl
      rw [hrun]
      exact ih _ hs
    | ingest timestamp batch => exact ih _ h
    | merge timestamp plan => exact ih _ h
    | report e => exact ih _ h

end Calm

namespace Table

variable {o : Calm} {t u : Table} {s s' s'' : Storage.Objects} {a : Access}
  {l : List (Access × Access.Result)}

/-- An access is about a path of its table. -/
theorem Access.asks_program (t : Table) (a : Access) : (a.program t).Asks (Request.IsOf t) := by
  cases a with
  | get path =>
    exact Program.Asks.bind (Table.asks_checked (.ask ⟨path, rfl⟩ fun _ => .done)) fun _ => .done
  | head path =>
    exact Program.Asks.bind (Table.asks_checked (.ask ⟨path, rfl⟩ fun _ => .done)) fun _ => .done
  | put path data condition =>
    exact Program.Asks.bind (Table.asks_checked (.ask ⟨path, rfl⟩ fun _ => .done)) fun _ => .done
  | list start =>
    exact Program.Asks.bind (Table.asks_checked (.ask ⟨start, rfl⟩ fun _ => .done)) fun _ => .done

/-- What is done to one table leaves the others as they were. -/
theorem Touches.agrees (h : t.Touches s s') (hne : t ≠ u) : Agrees u s s' := by
  have hcall : ∀ r, Operation.Asked t r → r.IsOf t := fun _ => Request.isOf_of_asked
  cases h with
  | @access a _ h => exact h.agrees (a.asks_program t) hne
  | opening h =>
    refine h.agrees ?_ hne
    refine Program.Asks.bind (((Session.asks_refresh _).mono fun _ => .session).mono hcall) ?_
    exact fun _ => .done
  | @call op v _ _ h => exact h.agrees ((op.asks_call t v).mono hcall) hne

/-- **An access gives the same where the objects of its table agree,** and they agree then. -/
theorem Access.run_congr (h : Agrees u s s') (o : Calm) (a : Access) :
    (a.run o u s').1 = (a.run o u s).1 ∧ Agrees u (a.run o u s).2 (a.run o u s').2 := by
  have hscene : Agrees u (Scene.mk s []).objects (Scene.mk s' []).objects := h
  exact Calm.run_congr (a.asks_program u) hscene o

/-- What was visited gives what it would have given alone. -/
theorem Visits.replay (h : Visits o t u s l s') (hne : t ≠ u) {alone : Storage.Objects}
    (ha : Agrees u s alone) :
    (Access.replay o u (l.map (·.1)) alone).1 = l.map (·.2) ∧
      Agrees u s' (Access.replay o u (l.map (·.1)) alone).2 := by
  induction h generalizing alone with
  | done => exact ⟨rfl, ha⟩
  | touch ht _ ih => exact ih ((ht.agrees hne).symm.trans ha)
  | @access s s'' l a _ ih =>
    obtain ⟨hx, hs⟩ := Access.run_congr ha o a
    obtain ⟨hxs, hagrees⟩ := ih hs
    rw [List.map_cons, List.map_cons, ← hxs, ← hx]
    exact ⟨rfl, hagrees⟩

/-- Placed paths of one table begin with one another just if the paths do. -/
theorem prefix_place {start path : String} :
    (u.place start).toList <+: (u.place path).toList ↔ start.toList <+: path.toList := by
  simp only [place, String.toList_append, List.prefix_append_right_inj]

/-- What a listing gives in calm, if the text is not at fault. -/
theorem Access.run_list {start : String} (hf : fault? start = none) (o : Calm) (u : Table)
    (s : Storage.Objects) : (list start).run o u s =
      (.listed (.ok ((o.arrange (s.list (u.place start))).filterMap fun m =>
        (u.relative? m.path).map (·, m.version))), s) := by
  unfold run program
  simp only [Table.list, checked, hf]
  rfl

/-- A listing below a path that is refused fails, and changes nothing. -/
theorem Access.run_list_of_fault {start : String} {fault : PathFault}
    (hf : fault? start = some fault) (o : Calm) (u : Table) (s : Storage.Objects) :
    (list start).run o u s = (.listed (.error (.badPath start fault)), s) := by
  unfold run program
  simp only [Table.list, checked, hf]
  rfl

/-- **A listing gives the stored paths that start with the text,** with their versions. -/
theorem mem_listed {start path version : String} {found : List Storage.Meta}
    (hfound : found.Perm (s.list (u.place start))) :
    (path, version) ∈ found.filterMap (fun m => (u.relative? m.path).map (·, m.version)) ↔
      start.toList <+: path.toList ∧
        ∃ object, s.find? (u.place path) = some object ∧ version = object.token := by
  rw [List.mem_filterMap]
  constructor
  · rintro ⟨m, hm, hr⟩
    obtain ⟨⟨p, object⟩, he, rfl⟩ := List.mem_map.1 (hfound.mem_iff.1 hm)
    obtain ⟨q, hq, hv⟩ := Option.map_eq_some_iff.1 hr
    obtain ⟨rfl, rfl⟩ := Prod.mk.inj hv
    obtain ⟨he, hp⟩ := List.mem_filter.1 he
    obtain rfl : u.place q = p := place_of_relative? hq
    refine ⟨prefix_place.1 (List.isPrefixOf_iff_prefix.1 hp), object, ?_, rfl⟩
    exact Storage.Objects.find?_of_mem_entries he
  · rintro ⟨hp, object, ho, rfl⟩
    have hplace := List.isPrefixOf_iff_prefix.2 ((prefix_place (u := u)).2 hp)
    refine ⟨object.describe (u.place path),
      hfound.mem_iff.2 (Storage.Objects.describe_mem_list ho hplace), ?_⟩
    show (u.relative? (u.place path)).map _ = _
    rw [relative?_place]
    rfl

/-- The table of a name that is accepted has this name. -/
theorem name_of_ofName {n : String} (h : ofName n = .ok t) : t.name = n := by
  unfold ofName at h
  split at h
  · cases h
  split at h
  · exact congrArg Table.name (Except.ok.inj h).symm
  · cases h

/-- **Tables of different names share nothing.** What accesses to one of them give does not
depend on what is done to the other one. A listing shows just what is stored of its table under
its text, unless the text is at fault. And what a call writes are markers of its table, at their
places and under a condition. -/
theorem isolated {n m : String} (ht : ofName n = .ok t) (hu : ofName m = .ok u) (hne : n ≠ m) :
    (∀ (o : Calm) s l s', Visits o t u s l s' →
      (Access.replay o u (l.map (·.1)) s).1 = l.map (·.2) ∧
      Agrees u s' (Access.replay o u (l.map (·.1)) s).2) ∧
    (∀ (table : Table) (o : Calm) s start,
      (∀ fault, fault? start = some fault →
        (Access.list start).run o table s = (.listed (.error (.badPath start fault)), s)) ∧
      (fault? start = none → ∃ found,
        (Access.list start).run o table s = (.listed (.ok found), s) ∧
        (∀ path version, (path, version) ∈ found ↔ start.toList <+: path.toList ∧
          ∃ object, s.find? (table.place path) = some object ∧ version = object.token) ∧
        (found.map (·.1)).Nodup)) ∧
    ∀ (table : Table) (op : Operation) (v : Timeline),
      ((op.call table).program v).Asks fun r =>
        ∀ path data condition, r = .storage (.put path data condition) →
          ∃ marker : Marker, path = table.place (markerPath marker.timestamp.text) ∧
            data = marker.encode ∧ condition ≠ .anything := by
  have htu : t ≠ u := by
    rintro rfl
    exact hne ((name_of_ofName ht).symm.trans (name_of_ofName hu))
  refine ⟨fun o s l s' h => h.replay htu (.refl u s), ?_, ?_⟩
  · intro table o s start
    refine ⟨fun fault hf => Access.run_list_of_fault hf o table s, fun hf => ?_⟩
    refine ⟨_, Access.run_list hf o table s, fun path version => mem_listed (o.perm _), ?_⟩
    rw [table.map_fst_listed]
    exact Storage.Objects.nodup_relative (o.perm _) table
  · intro table op v
    refine (op.asks_call table v).mono ?_
    rintro r hr path data condition rfl
    cases hr with
    | session hr =>
      cases hr with
      | create m => exact ⟨m, rfl, rfl, Storage.Precondition.noConfusion⟩
      | replace m version => exact ⟨m, rfl, rfl, Storage.Precondition.noConfusion⟩

/-- An object and a marker are written to the table `t`, and then the table `t-2` is accessed. -/
theorem isolated_of_names :
    ∃ t u l s', ofName "t" = .ok t ∧ ofName "t-2" = .ok u ∧ "t" ≠ "t-2" ∧
      Visits .plain t u .empty l s' ∧
      l.map (·.2) = [.written (.ok (.stored "1")), .listed (.ok [("x", "1")])] ∧
      (Access.replay .plain u (l.map (·.1)) .empty).1 = l.map (·.2) := by
  let u : Table := ⟨"t-2", by decide, by decide⟩
  let other : Access := .put "x" [0] .anything
  let append : Operation := .append (.requested ⟨"001"⟩ .deltaCommit) .empty none
  let write : Access := .put "x" [1] .absent
  have hu : ofName "t-2" = .ok u := rfl
  have hvisits := Visits.touch (.access (Calm.plain.leads_run (other.program sample) ⟨.empty, []⟩))
    (Visits.touch (.call (Calm.plain.leads_run ((append.call sample).program .empty) _))
      (.access write (.access (.list "") (.done (o := .plain) (t := sample) (u := u)))))
  have hnames : "t" ≠ "t-2" := by decide
  refine ⟨sample, u, _, _, rfl, hu, hnames, hvisits, ?_, ?_⟩
  · decide +kernel
  · exact ((isolated (t := sample) rfl hu hnames).1 _ _ _ _ hvisits).1

end Table
end CommitTimeline
