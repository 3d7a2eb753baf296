/-
# What a session asks of storage

Each call of a session followed alone, whatever it is answered. A refresh that
succeeds has listed the markers, read each of them, and has the view of what it read
(`Session.Loads`). An append that succeeds has made one write, and one of a marker
that was absent (`Session.Creates`). A transition that succeeds has looked at the
version of the marker, read it and overwritten it under the condition of this
version, in this order and nothing else (`Session.Moves`). A call that fails, or has
not returned yet, has written nothing.
-/

import CommitTimeline.Proofs.History
import CommitTimeline.Proofs.Marker.RoundTrip
import CommitTimeline.Proofs.Storage.Paths
import CommitTimeline.Session

namespace CommitTimeline

/-- The paths of what a table lists. -/
theorem Table.map_fst_listed (table : Table) (found : List Storage.Meta) :
    (found.filterMap fun m => (table.relative? m.path).map (·, m.version)).map (·.1) =
      found.filterMap fun m => table.relative? m.path := by
  rw [List.map_filterMap]
  refine List.filterMap_congr fun m _ => ?_
  rw [Option.map_map]
  exact Option.map_id' ..

namespace Session

/-- Nothing was written, and the writer was not asked. -/
def Idle (own : List Exchange) : Prop :=
  ∀ e ∈ own, e.IsIdle

/-- What is idle has written nothing. -/
theorem Idle.not_write {own : List Exchange} (h : Idle own) : ∀ e ∈ own, e.write? = none :=
  fun e he => (h e he).1

/-- Where nothing was exchanged, all is idle. -/
theorem idle_nil : Idle [] := by
  intro e he
  cases he

/-- A storage request that writes nothing leaves all idle. -/
theorem Idle.cons_storage {own : List Exchange} {r : Storage.Request} {x : r.Answer}
    (h : Idle own) (hx : Exchange.write? ⟨.storage r, x⟩ = none) :
    Idle (⟨.storage r, x⟩ :: own) := by
  intro e he
  rcases List.mem_cons.1 he with rfl | he
  · exact ⟨hx, r, x, rfl⟩
  · exact h e he

/-- A call that writes nothing unless it gives a result, followed after others: what idle
exchanges keep holds until then. -/
theorem safe_after_idle {α : Type} {c : Call α} {v : Timeline}
    {gives : α → Timeline → List Exchange → Prop} {W : List Exchange → Prop}
    {own : List Exchange} (hW : ∀ l, Idle l → W (l ++ own))
    (hc : c.Safe Alone Idle (fun _ => Idle) gives v []) :
    c.Safe Alone W (fun _ => W) (fun a w l => ∃ l', l = l' ++ own ∧ gives a w l') v own := by
  refine (hc.after own).mono ?_ ?_ fun a w l hl => hl
  · rintro _ ⟨l', rfl, hi⟩
    exact hW l' hi
  · rintro _ _ ⟨l', rfl, hi⟩
    exact hW l' hi

/-- A path inside a table is named like that of a marker. -/
def isMarker (path : String) : Bool :=
  (Table.stem? (Table.fileName path.toList)).isSome

/-- A marker was read at a path inside a table whose name gives its timestamp. -/
def ReadAt (table : Table) (own : List Exchange) (path : String) (m : Marker) : Prop :=
  Table.stem? (Table.fileName path.toList) = some m.timestamp.text.toList ∧
    ∃ data, Exchange.read (table.place path) data ∈ own ∧ Marker.decode? data = some m

/-- The markers were listed and read, and a timeline is made of them. -/
def Loads (table : Table) (t : Timeline) (own : List Exchange) : Prop :=
  Idle own ∧ ∃ found markers,
    Exchange.listed (table.place Table.timelineDirectory) found ∈ own ∧
    List.Forall₂ (ReadAt table own)
      ((found.filterMap fun m => table.relative? m.path).filter isMarker) markers ∧
    t = .ofEntries markers

/-- A marker was written where there was none. -/
def Creates (table : Table) (m : Marker) (own : List Exchange) : Prop :=
  ∃ version, own = [.stored (table.markerAt m.timestamp) m.encode .absent version]

/-- A marker was looked at, read and overwritten in one step of an instant. -/
structure Moves (table : Table) (instant : Instant) (target : State) (details : Option Details)
    (current m : Marker) (own : List Exchange) : Prop where
  action : current.instant.action = instant.action
  state : current.instant.state = instant.state
  marker : m = ⟨instant.moved target, details.getD current.details, current.requestedAt⟩
  exchanges : ∃ known data version, Marker.decode? data = some current ∧
    own = [.stored (table.markerAt instant.timestamp) m.encode (.version known.version) version,
      .read (table.markerAt instant.timestamp) data,
      .described (table.markerAt instant.timestamp) known]

/-- The last exchange is the only one that wrote. -/
theorem eq_last_of_write {own l l' : List Exchange} {e f : Exchange}
    (h : f :: own = l ++ e :: l') (hown : ∀ g ∈ own, g.write? = none) (he : e.write? ≠ none) :
    l = [] ∧ e = f ∧ l' = own := by
  cases l with
  | nil =>
    obtain ⟨rfl, rfl⟩ := List.cons.inj h
    exact ⟨rfl, rfl, rfl⟩
  | cons g l =>
    obtain ⟨-, rfl⟩ := List.cons.inj h
    exact absurd (hown e (List.mem_append_right l List.mem_cons_self)) he

section Calls

variable {σ : Type} {step : σ → Exchange → σ → Prop} {waits : σ → Prop}
  {fails : Error → σ → Prop} {v : Timeline} {s : σ} {table : Table}

/-- A listing gives the paths inside the table, or a storage error. -/
theorem safe_list {start : String} {gives : List (String × String) → Timeline → σ → Prop}
    (hw : waits s) (hfault : ∀ e, fails (.storage e) s)
    (hok : ∀ found s', step s (.listed (table.place start) found) s' →
      gives (found.filterMap fun m => (table.relative? m.path).map (·, m.version)) v s')
    (herr : ∀ e s', step s ⟨.storage (.list (table.place start)), .error e⟩ s' →
      fails (.storage e) s') :
    (Call.storage (table.list start)).Safe step waits fails gives v s := by
  apply Call.safe_storage
  rw [Table.list, Table.checked]
  split
  · exact .done (hfault _)
  · refine .ask rfl hw fun x s' hx => .done ?_
    cases x with
    | ok found => exact hok found s' hx
    | error e => exact herr e s' hx

/-- A look gives what is known of an object, or a storage error. -/
theorem safe_head {path : String} {gives : Option Storage.Meta → Timeline → σ → Prop}
    (hw : waits s) (hfault : ∀ e, fails (.storage e) s)
    (h : ∀ x s', step s ⟨.storage (.head (table.place path)), x⟩ s' → match x with
      | .ok known => gives known v s'
      | .error e => fails (.storage e) s') :
    (Call.storage (table.head path)).Safe step waits fails gives v s :=
  Call.safe_checked (r := .head (table.place path)) hw hfault (fun x s' hs => h (.ok x) s' hs)
    fun e s' hs => h (.error e) s' hs

/-- A put gives what has come of it, or a storage error. -/
theorem safe_put {path : String} {data : Bytes} {condition : Storage.Precondition}
    {gives : Storage.Written → Timeline → σ → Prop}
    (hw : waits s) (hfault : ∀ e, fails (.storage e) s)
    (h : ∀ x s', step s ⟨.storage (.put (table.place path) data condition), x⟩ s' → match x with
      | .ok written => gives written v s'
      | .error e => fails (.storage e) s') :
    (Call.storage (table.put path data condition)).Safe step waits fails gives v s :=
  Call.safe_checked (r := .put (table.place path) data condition) hw hfault
    (fun x s' hs => h (.ok x) s' hs) fun e s' hs => h (.error e) s' hs

/-- One marker is read and decoded, or the call fails. -/
theorem safe_readMarker {path : String} {gives : Marker → Timeline → σ → Prop} (hw : waits s)
    (hfault : ∀ e, fails e s)
    (hok : ∀ data m s', step s (.read (table.place path) data) s' →
      Marker.decode? data = some m → gives m v s')
    (herr : ∀ x s', step s ⟨.storage (.get (table.place path)), x⟩ s' → ∀ e, fails e s') :
    (readMarker table path).Safe step waits fails gives v s := by
  unfold readMarker
  refine Call.Safe.bind (g := fun data w s' =>
    w = v ∧ step s (.read (table.place path) data) s') ?_ ?_
  · refine Call.safe_checked hw (fun e => hfault _) (fun data s' hs => ⟨rfl, hs⟩)
      fun e s' hs => herr _ s' hs _
  · rintro data w s' ⟨rfl, hs⟩
    split
    · rename_i m hm
      exact Call.safe_pure (hok data m s' hs hm)
    · exact Call.safe_throw (herr _ s' hs _)

end Calls

variable {table : Table} {v : Timeline}

/-- What was read has been read later, too. -/
theorem ReadAt.mono {own own' : List Exchange} {path : String} {m : Marker}
    (h : ReadAt table own path m) (hs : own ⊆ own') : ReadAt table own' path m := by
  obtain ⟨ht, data, hr, hd⟩ := h
  exact ⟨ht, data, hs hr, hd⟩

/-- What was read was read somewhere. -/
theorem exists_readAt {own : List Exchange} {paths : List String} {markers : List Marker}
    {m : Marker} (h : List.Forall₂ (ReadAt table own) paths markers) (hm : m ∈ markers) :
    ∃ path, ReadAt table own path m := by
  induction h with
  | nil => cases hm
  | cons hr _ ih =>
    rcases List.mem_cons.1 hm with rfl | hm
    · exact ⟨_, hr⟩
    · exact ih hm

/-- At every path a marker was read. -/
theorem exists_mem_readAt {own : List Exchange} {paths : List String} {markers : List Marker}
    {path : String} (h : List.Forall₂ (ReadAt table own) paths markers) (hp : path ∈ paths) :
    ∃ m ∈ markers, ReadAt table own path m := by
  induction h with
  | nil => cases hp
  | @cons _ m _ _ hr _ ih =>
    rcases List.mem_cons.1 hp with rfl | hp
    · exact ⟨m, List.mem_cons_self, hr⟩
    · obtain ⟨m', hm', hr'⟩ := ih hp
      exact ⟨m', List.mem_cons_of_mem m hm', hr'⟩

/-- Reading a marker gives what was read and decoded, and writes nothing. -/
theorem safe_readMarker_idle {path : String} {l : List Exchange} (hl : Idle l) :
    (readMarker table path).Safe Alone Idle (fun _ => Idle)
      (fun m w own => w = v ∧ Idle own ∧ l ⊆ own ∧
        ∃ data, Exchange.read (table.place path) data ∈ own ∧ Marker.decode? data = some m)
      v l := by
  refine safe_readMarker hl (fun _ => hl) ?_ ?_
  · rintro data m _ rfl hm
    exact ⟨rfl, hl.cons_storage rfl, List.subset_cons_self _ _, data, List.mem_cons_self, hm⟩
  · rintro x _ rfl _
    exact hl.cons_storage rfl

/-- Reading markers gives one for each path that is named like one, in their order. -/
theorem safe_readMarkers (paths : List String) :
    ∀ {v : Timeline} {l : List Exchange}, Idle l →
      (readMarkers table paths).Safe Alone Idle (fun _ => Idle)
        (fun markers w own => w = v ∧ Idle own ∧ l ⊆ own ∧
          List.Forall₂ (ReadAt table own) (paths.filter isMarker) markers) v l := by
  induction paths with
  | nil =>
    intro v l hl
    exact Call.safe_pure ⟨rfl, hl, List.Subset.refl l, .nil⟩
  | cons path paths ih =>
    intro v l hl
    unfold readMarkers
    split
    · rename_i hn
      have hp : isMarker path = false := by rw [isMarker, hn]; rfl
      rw [List.filter_cons_of_neg (by rw [hp]; decide)]
      exact ih hl
    · rename_i stem hn
      have hp : isMarker path = true := by rw [isMarker, hn]; rfl
      rw [List.filter_cons_of_pos hp]
      refine Call.Safe.bind (safe_readMarker_idle hl) ?_
      rintro m w own ⟨rfl, hown, hsub, hread⟩
      split
      · rename_i ht
        refine Call.Safe.bind (ih hown) ?_
        rintro markers w own' ⟨rfl, hown', hsub', hall⟩
        refine Call.safe_pure ⟨rfl, hown', List.Subset.trans hsub hsub', .cons ?_ hall⟩
        refine ReadAt.mono ⟨?_, hread⟩ hsub'
        rw [hn, ht]
      · exact Call.safe_throw hown

/-- **A refresh changes nothing,** and its view is what it read. -/
theorem safe_refresh :
    (refresh table).Safe Alone Idle (fun _ => Idle) (fun _ w own => Loads table w own) v [] := by
  unfold refresh
  refine Call.Safe.bind (g := fun listed w own => w = v ∧ Idle own ∧ ∃ found,
    Exchange.listed (table.place Table.timelineDirectory) found ∈ own ∧
    listed = found.filterMap fun m => (table.relative? m.path).map (·, m.version)) ?_ ?_
  · refine safe_list idle_nil (fun _ => idle_nil) ?_ ?_
    · rintro found _ rfl
      exact ⟨rfl, idle_nil.cons_storage rfl, found, List.mem_cons_self, rfl⟩
    · rintro e _ rfl
      exact idle_nil.cons_storage rfl
  · rintro _ w own ⟨rfl, hown, found, hfound, rfl⟩
    refine Call.Safe.bind (safe_readMarkers _ hown) ?_
    rintro markers w own' ⟨rfl, hown', hsub, hall⟩
    refine Call.safe_log (Call.safe_set ⟨hown', found, markers, hsub hfound, ?_, rfl⟩)
    rw [← table.map_fst_listed]
    exact hall

/-- Only what is requested is appended. -/
theorem state_of_refusal? {view : Timeline} {instant : Instant}
    (h : refusal? view instant = none) : instant.state = .requested := by
  unfold refusal? at h
  split at h
  · cases h
  · rename_i hs
    exact not_not.1 hs

/-- **An append writes once,** where there was nothing, or it fails and writes nothing. -/
theorem safe_append (instant : Instant) (details : Details) (requestedAt : Option Moment) :
    (append table instant details requestedAt).Safe Alone Idle (fun _ => Idle)
      (fun i w own => i = instant ∧ refusal? v instant = none ∧
        w = v.upsert ⟨instant, details, requestedAt⟩ ∧
        Creates table ⟨instant, details, requestedAt⟩ own) v [] := by
  unfold append
  refine Call.safe_view ?_
  split
  · exact Call.safe_throw idle_nil
  · rename_i hr
    refine Call.Safe.bind (g := fun written w own => w = v ∧
      own = [⟨.storage (.put (table.markerAt instant.timestamp)
        (Marker.encode ⟨instant, details, requestedAt⟩) .absent), .ok written⟩]) ?_ ?_
    · refine safe_put idle_nil (fun _ => idle_nil) ?_
      rintro (e | written) _ rfl
      · exact idle_nil.cons_storage rfl
      · exact ⟨rfl, rfl⟩
    · rintro (version | version) w _ ⟨rfl, rfl⟩
      · exact Call.safe_log (Call.safe_modify (Call.safe_pure ⟨rfl, hr, rfl, version, rfl⟩))
      · exact Call.safe_throw (idle_nil.cons_storage rfl)

/-- **A transition looks, reads and writes,** or it fails and writes nothing. -/
theorem safe_transition (instant : Instant) (target : State) (details : Option Details) :
    (transition table instant target details).Safe Alone Idle (fun _ => Idle)
      (fun i w own => i = instant.moved target ∧ instant.state.Leads target ∧ ∃ current m,
        w = v.upsert m ∧ Moves table instant target details current m own) v [] := by
  unfold transition
  split
  · rename_i hleads
    refine Call.Safe.bind (g := fun known w own => v = w ∧
      own = [⟨.storage (.head (table.markerAt instant.timestamp)), .ok known⟩]) ?_ ?_
    · refine safe_head idle_nil (fun _ => idle_nil) ?_
      rintro (e | known) _ rfl
      · exact idle_nil.cons_storage rfl
      · exact ⟨rfl, rfl⟩
    · rintro known w own ⟨rfl, rfl⟩
      cases known with
      | none => exact Call.safe_throw (idle_nil.cons_storage rfl)
      | some known =>
        have hhead : Idle [Exchange.described (table.markerAt instant.timestamp) known] :=
          idle_nil.cons_storage rfl
        refine Call.Safe.bind (g := fun current w own => v = w ∧ ∃ data,
          Marker.decode? data = some current ∧
          own = [.read (table.markerAt instant.timestamp) data,
            .described (table.markerAt instant.timestamp) known]) ?_ ?_
        · refine safe_readMarker hhead (fun _ => hhead) ?_ ?_
          · rintro data current _ rfl hd
            exact ⟨rfl, data, hd, rfl⟩
          · rintro x _ rfl _
            exact hhead.cons_storage rfl
        · rintro current w _ ⟨rfl, data, hd, rfl⟩
          have hread : Idle [Exchange.read (table.markerAt instant.timestamp) data,
              .described (table.markerAt instant.timestamp) known] := hhead.cons_storage rfl
          split
          · rename_i hm
            refine Call.Safe.bind (g := fun written w own => v = w ∧
              own = ⟨.storage (.put (table.markerAt instant.timestamp)
                (Marker.encode ⟨instant.moved target, details.getD current.details,
                  current.requestedAt⟩) (.version known.version)), .ok written⟩ ::
                [.read (table.markerAt instant.timestamp) data,
                  .described (table.markerAt instant.timestamp) known]) ?_ ?_
            · refine safe_put hread (fun _ => hread) ?_
              rintro (e | written) _ rfl
              · exact hread.cons_storage rfl
              · exact ⟨rfl, rfl⟩
            · rintro (version | version) w _ ⟨rfl, rfl⟩
              · refine Call.safe_log (Call.safe_modify (Call.safe_pure ?_))
                exact ⟨rfl, hleads, current, _, rfl, hm.1, hm.2, rfl, known, data, version, hd, rfl⟩
              · refine Call.safe_count (Call.Safe.bind (safe_readMarker_idle ?_) ?_)
                · exact hread.cons_storage rfl
                · rintro actual w own ⟨-, hown, -, -⟩
                  exact Call.safe_log (Call.safe_throw hown)
          · exact Call.safe_count (Call.safe_throw hread)
  · exact Call.safe_throw idle_nil

end Session
end CommitTimeline
