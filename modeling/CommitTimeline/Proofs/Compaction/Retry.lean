/-
# Retries in calm

Where the markers of a timeline are stored, a retry in calm, by whatever session, merges
the earliest outstanding compaction by the plan that its marker holds and completes it as
a commit under its timestamp. It touches no other object, and it gives nothing just if no
compaction is outstanding (`Compaction.Retried`). So each retry takes one off the list of
those that are outstanding, in the order of their timestamps, until none is left
(`Timeline.IsStoredIn.drains`).

An inflight marker in between is all that a retry writes besides, at the same place, so the
steps are followed as if the compaction were put in flight again (`Marker.inflight`).
-/

import CommitTimeline.Proofs.Session.Reload

namespace CommitTimeline

/-- The filter of pending compactions selects just the outstanding ones. -/
theorem Filter.selects_pendingCompaction (m : Marker) :
    pendingCompaction.selects m.instant = decide m.IsOutstanding := by
  obtain ⟨⟨t, a, s⟩, d, r⟩ := m
  cases a <;> cases s <;> rfl

/-- The marker of a compaction that is in flight. -/
def Marker.inflight (m : Marker) : Marker :=
  ⟨⟨m.timestamp, .compaction, .inflight⟩, m.details, m.requestedAt⟩

/-- The marker of a compaction that has completed. -/
def Marker.merged (m : Marker) : Marker :=
  ⟨⟨m.timestamp, .commit, .completed⟩, m.details, m.requestedAt⟩

/-- A merged compaction is not outstanding any more. -/
theorem Marker.not_isOutstanding_merged (m : Marker) : ¬m.merged.IsOutstanding :=
  fun h => h.2 rfl

namespace Timeline

variable {t : Timeline} {e m : Entry} {rest : List Entry}

/-- The compactions that have not completed, in the order of their timestamps. -/
def outstanding (t : Timeline) : List Entry :=
  t.entries.filter (·.IsOutstanding)

/-- The outstanding compactions are those of the entries. -/
theorem mem_outstanding : e ∈ t.outstanding ↔ e ∈ t.entries ∧ e.IsOutstanding := by
  rw [outstanding, List.mem_filter, decide_eq_true_iff]

/-- The pending compaction is the first of the outstanding ones. -/
theorem pendingCompaction?_eq (t : Timeline) :
    t.pendingCompaction? = t.outstanding.head?.map (·.instant) := by
  rw [pendingCompaction?, first?, instants, List.find?_map, outstanding, List.head?_filter]
  congr 2
  funext e
  exact Filter.selects_pendingCompaction e

/-- What takes the place of the earliest outstanding compaction, and is none, leaves the
others outstanding. -/
theorem outstanding_upsert (ht : t.IsStrict) (h : t.outstanding = e :: rest)
    (htime : e.timestamp = m.timestamp) (hm : ¬m.IsOutstanding) :
    (t.upsert m).outstanding = rest := by
  have he : e ∈ t.entries := (mem_outstanding.1 (h ▸ List.mem_cons_self)).1
  have hnodup : (e :: rest).Nodup := h ▸ ht.nodup.filter _
  have hrest : (e :: rest).filter (fun y => y ≠ e) = rest := by
    rw [List.filter_cons_of_neg (by simp), List.filter_eq_self]
    intro y hy
    rw [decide_eq_true_iff]
    rintro rfl
    exact (List.nodup_cons.1 hnodup).1 hy
  have hmap : ∀ l : List Entry, (l.map fun y => if y = e then m else y).filter (·.IsOutstanding) =
      (l.filter (·.IsOutstanding)).filter fun y => y ≠ e := by
    intro l
    induction l with
    | nil => rfl
    | cons y l ih =>
      rw [List.map_cons]
      by_cases hy : y = e
      · have heo : e.IsOutstanding := (mem_outstanding.1 (h ▸ List.mem_cons_self)).2
        rw [if_pos hy, List.filter_cons_of_neg (by simpa using hm), ih, hy,
          List.filter_cons_of_pos (by simpa using heo), List.filter_cons_of_neg (by simp)]
      · rw [if_neg hy, List.filter_cons, List.filter_cons, ih]
        split
        · rw [List.filter_cons_of_pos (by simpa using hy)]
        · rfl
  rw [outstanding, upsert_of_mem ht he htime, hmap]
  show t.outstanding.filter _ = rest
  rw [h, hrest]

end Timeline

namespace Compaction

/-- What a retry comes to where the markers of a timeline are stored: what it gives, the view
and the scene. -/
inductive Retried (table : Table) (t : Timeline) (s : Scene) :
    Option Instant → Timeline → Scene → Prop where
  /-- Nothing is outstanding, and nothing is done. -/
  | idle (h : t.outstanding = []) : Retried table t s none t s
  /-- The earliest outstanding compaction is merged by its plan and completes; all else stays
  as it was. -/
  | completed {e : Entry} {rest : List Entry} {s' : Scene} (h : t.outstanding = e :: rest)
      (hstored : (t.upsert e.merged).IsStoredIn table s'.objects)
      (hothers : ∀ path, path ≠ table.markerAt e.timestamp →
        s'.objects.find? path = s.objects.find? path)
      (hmerges : s'.merges = s.merges ++ [(e.timestamp, e.details.plan?.getD .empty)]) :
      Retried table t s (some e.merged.instant) (t.upsert e.merged) s'

/-- The view and the scene after some retries by one session. -/
def retries (o : Calm) (table : Table) : Nat → Timeline → Scene → Timeline × Scene
  | 0, v, s => (v, s)
  | n + 1, v, s =>
    let r := ((retryPending table).program v).run o.answer s
    retries o table n r.1.2 r.2

/-- What a session does in calm that opens where the markers of a timeline are stored: it has
this timeline for its view, and after any number of retries the next one takes the earliest
compaction off those that are still outstanding. -/
structure Recovers (o : Calm) (table : Table) (t : Timeline) (s : Scene) : Prop where
  opens : (Session.load table).run o.answer s = (.ok t, s)
  drains : (∀ timestamp plan, o.merge timestamp plan = .ok ()) → ∀ n, ∃ u i w s',
    u.IsStoredIn table (retries o table n t s).2.objects ∧
    u.outstanding = t.outstanding.drop n ∧
    ((retryPending table).program (retries o table n t s).1).run o.answer
      (retries o table n t s).2 = ((.ok i, w), s') ∧
    Retried table u (retries o table n t s).2 i w s'

end Compaction

namespace Timeline.IsStoredIn

open Compaction

variable {o : Calm} {s : Scene} {table : Table} {t v : Timeline} {e : Entry}

/-- A compaction that is outstanding is in flight when its execution has started. -/
theorem gives_start (h : t.IsStoredIn table s.objects) (he : e ∈ t.entries)
    (ho : e.IsOutstanding) :
    o.Gives (fun i w s' => i = e.inflight.instant ∧ w = t.upsert e.inflight ∧
      (t.upsert e.inflight).IsStoredIn table s'.objects ∧
      (∀ path, path ≠ table.markerAt e.timestamp →
        s'.objects.find? path = s.objects.find? path) ∧ s'.merges = s.merges)
      (start table e.instant) t s := by
  obtain ⟨⟨ts, a, state⟩, d, r⟩ := e
  obtain ⟨ha, hs⟩ := ho
  obtain rfl : a = .compaction := ha
  cases state with
  | requested =>
    refine (h.gives_transition he .inflight none rfl ?_).imp ?_
    · intro d hd
      cases hd
    · rintro i w s' ⟨rfl, rfl, hs'⟩
      exact ⟨rfl, rfl, hs'⟩
  | inflight =>
    have hsame : t.upsert (Marker.inflight ⟨⟨ts, .compaction, .inflight⟩, d, r⟩) = t :=
      upsert_eq_self h.strict he
    refine Call.safe_pure ?_
    rw [hsame]
    exact ⟨rfl, rfl, h, fun _ _ => rfl, rfl⟩
  | completed => exact absurd rfl hs

/-- **An execution in calm merges by the plan that the marker holds,** and completes. -/
theorem gives_execute (h : t.IsStoredIn table s.objects) (he : e ∈ t.entries)
    (ho : e.IsOutstanding) (hmerge : ∀ timestamp plan, o.merge timestamp plan = .ok ())
    (mode : Mode) :
    o.Gives (fun i w s' => i = e.merged.instant ∧ w = t.upsert e.merged ∧
      (t.upsert e.merged).IsStoredIn table s'.objects ∧
      (∀ path, path ≠ table.markerAt e.timestamp →
        s'.objects.find? path = s.objects.find? path) ∧
      s'.merges = s.merges ++ [(e.timestamp, e.details.plan?.getD .empty)])
      (execute table e.instant mode) t s := by
  refine Call.safe_within _ (Call.Safe.bind (h.gives_start he ho) ?_)
  rintro i w s₁ ⟨rfl, rfl, h₁, hothers₁, hmerges₁⟩
  have he₁ : e.inflight ∈ (t.upsert e.inflight).entries := mem_upsert_self t _
  have hplan : (t.upsert e.inflight).planAt e.timestamp = e.details.plan?.getD .empty := by
    rw [planAt, details?]
    have hfind := find?_of_mem h₁.strict he₁
    rw [show e.inflight.timestamp = e.timestamp from rfl] at hfind
    rw [hfind]
    rfl
  refine Call.safe_view (Calm.safe_merge trivial ?_)
  intro s₂ hobjects hmerges₂
  rw [← hobjects] at h₁ hothers₁
  rw [hmerge]
  refine Call.Safe.bind (h₁.gives_transition he₁ .completed none rfl ?_) ?_
  · intro d hd
    cases hd
  rintro i w s₃ ⟨rfl, rfl, h₃, hothers₃, hmerges₃⟩
  have hsame : (t.upsert e.inflight).upsert e.merged = t.upsert e.merged :=
    upsert_upsert h.strict rfl
  refine Call.safe_count (Call.safe_count (Call.safe_log (Call.safe_pure ?_)))
  refine ⟨rfl, hsame, hsame ▸ h₃, ?_, ?_⟩
  · intro path hp
    rw [hothers₃ path hp, hothers₁ path hp]
  · rw [hmerges₃, hmerges₂, hmerges₁, ← hplan]
    rfl

/-- **A retry in calm** completes the earliest outstanding compaction, if there is one. -/
theorem gives_retryPending (h : t.IsStoredIn table s.objects)
    (hmerge : ∀ timestamp plan, o.merge timestamp plan = .ok ()) :
    o.Gives (Retried table t s) (retryPending table) v s := by
  unfold retryPending
  refine Call.Safe.bind h.gives_refresh ?_
  rintro _ w s ⟨rfl, rfl⟩
  unfold completePending
  refine Call.safe_view ?_
  rw [pendingCompaction?_eq]
  cases ho : w.outstanding with
  | nil => exact Call.safe_pure (.idle ho)
  | cons e rest =>
    obtain ⟨he, heo⟩ := mem_outstanding.1 (ho ▸ List.mem_cons_self)
    refine Call.safe_log (Call.safe_count ?_)
    refine Call.Safe.bind (h.gives_execute he heo hmerge .retry) ?_
    rintro i w s' ⟨rfl, rfl, hs'⟩
    exact Call.safe_pure (.completed ho hs'.1 hs'.2.1 hs'.2.2)

/-- **Retries in calm drain the outstanding compactions,** one at a time and the earliest
first, whatever view the first of them begins with. -/
theorem drains (h : t.IsStoredIn table s.objects)
    (hmerge : ∀ timestamp plan, o.merge timestamp plan = .ok ()) (n : Nat) :
    ∃ u i w s', u.IsStoredIn table (retries o table n v s).2.objects ∧
      u.outstanding = t.outstanding.drop n ∧
      ((retryPending table).program (retries o table n v s).1).run o.answer
        (retries o table n v s).2 = ((.ok i, w), s') ∧
      Retried table u (retries o table n v s).2 i w s' := by
  induction n generalizing t v s with
  | zero =>
    obtain ⟨i, w, s', hr, hretried⟩ := (h.gives_retryPending hmerge).run
    exact ⟨t, i, w, s', h, rfl, hr, hretried⟩
  | succ n ih =>
    obtain ⟨i, w, s', hr, hretried⟩ := (h.gives_retryPending (v := v) hmerge).run
    have hnext : retries o table (n + 1) v s = retries o table n w s' := by rw [retries, hr]
    rw [hnext]
    cases hretried with
    | idle hnone =>
      rw [hnone, List.drop_nil, ← List.drop_nil (i := n), ← hnone]
      exact ih h
    | @completed e rest _ houtstanding hstored =>
      have hrest : (t.upsert e.merged).outstanding = rest :=
        outstanding_upsert h.strict houtstanding rfl e.not_isOutstanding_merged
      rw [houtstanding, List.drop_succ_cons, ← hrest]
      exact ih hstored

/-- From any stored timeline the pending compactions are retried one by one. -/
theorem recovers (h : t.IsStoredIn table s.objects) (o : Calm) : Recovers o table t s where
  opens := h.load o
  drains := fun hmerge n => h.drains hmerge n

end Timeline.IsStoredIn
end CommitTimeline
