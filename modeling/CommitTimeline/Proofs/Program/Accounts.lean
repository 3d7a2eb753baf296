/-
# Accounts of metrics

An account is a history of storage together with the metrics that were raised in it. What a
program may come to there is told with its reports (`Program.Comes`), which make no difference to
objects (`Program.Leads`): each metric that it raises is recorded. `Call.Ensures` says what holds
of an account whatever a call comes to; for calls there is one rule for each way to build a call.

Sessions raise conflicts only, and they do not ask the writer of the table. So whatever is safe
of them in the history holds in the account, and all other totals stay as they were
(`Call.Safe.ensures`).
-/

import CommitTimeline.Proofs.Program.Leads
import CommitTimeline.Proofs.Program.Requests

namespace CommitTimeline

/-- How often metrics of a name were raised that have all of some labels. -/
def Metric.total (name : String) (labels : List (String × String)) (raised : List Metric) : Nat :=
  raised.countP fun m => m.name = name ∧ ∀ l ∈ labels, l ∈ m.labels

/-- The total of a metric counts it once each time it is raised with the labels. -/
theorem Metric.total_cons (name : String) (labels : List (String × String)) (m : Metric)
    (raised : List Metric) : total name labels (m :: raised) =
      total name labels raised + if m.name = name ∧ ∀ l ∈ labels, l ∈ m.labels then 1 else 0 := by
  simp only [total, List.countP_cons, decide_eq_true_eq]

/-- The writer of the table was asked to ingest or to merge, and has given an error. -/
def Exchange.hasFailed : Exchange → Bool
  | ⟨.ingest .., .error _⟩ => true
  | ⟨.merge .., .error _⟩ => true
  | _ => false

/-- What has been asked and answered, and the metrics that were raised, the latest first. -/
structure Account where
  history : History
  raised : List Metric

namespace Account

/-- Nothing has been asked, some objects are stored, and nothing was raised. -/
def on (base : Storage.Objects) : Account := ⟨⟨[], base⟩, []⟩

/-- One more metric is raised. -/
def raise (s : Account) (m : Metric) : Account :=
  { s with raised := m :: s.raised }

/-- How often metrics of a name were raised that have all of some labels. -/
def total (s : Account) (name : String) (labels : List (String × String)) : Nat :=
  Metric.total name labels s.raised

/-- How many calls to ingest or to merge have given an error. -/
def failures (s : Account) : Nat :=
  s.history.acts.countP (·.exchange.hasFailed)

/-- A task asks and is answered, or reports. -/
inductive Step (task : Nat) : Account → Exchange → Account → Prop where
  | log {s : Account} {notice : Notice} {spans : List Span} :
      Step task s ⟨.report (.log notice spans), ()⟩ s
  | count {s : Account} {metric : Metric} :
      Step task s ⟨.report (.count metric), ()⟩ (s.raise metric)
  | ask {h h' : History} {raised : List Metric} {e : Exchange} (hr : e.request.isReport = false)
      (hs : History.Step task h e h') : Step task ⟨h, raised⟩ e ⟨h', raised⟩

/-- Conflicts apart, as much was raised in both, and the writer has failed as often. -/
structure Matches (s s' : Account) : Prop where
  total : ∀ name labels, name ≠ "mantle_timeline_transition_conflicts_total" →
    s'.total name labels = s.total name labels
  failures : s'.failures = s.failures

variable {s s' s'' : Account} {task : Nat} {e : Exchange} {table : Table}

/-- An account matches itself. -/
theorem Matches.refl (s : Account) : s.Matches s :=
  ⟨fun _ _ _ => rfl, rfl⟩

/-- What matches the second of two accounts that match also matches the first. -/
theorem Matches.trans (h : s.Matches s') (h' : s'.Matches s'') : s.Matches s'' where
  total := fun name labels hn => (h'.total name labels hn).trans (h.total name labels hn)
  failures := h'.failures.trans h.failures

/-- What is asked and answered raises nothing, and counts if the writer has failed. -/
theorem Step.of_ask (h : Step task s e s') (he : e.request.isReport = false) :
    History.Step task s.history e s'.history ∧ s'.raised = s.raised ∧
      s'.failures = s.failures + if e.hasFailed then 1 else 0 := by
  cases h with
  | log => cases he
  | count => cases he
  | ask _ hs =>
    refine ⟨hs, rfl, ?_⟩
    obtain ⟨-⟩ := hs
    exact List.countP_cons

/-- What is asked without a failure of the writer raises nothing. -/
theorem Matches.of_ask (h : Step task s e s') (he : e.request.isReport = false)
    (hf : e.hasFailed = false) : s.Matches s' := by
  obtain ⟨-, hraised, hfailures⟩ := h.of_ask he
  constructor
  · intro name labels _
    rw [Account.total, Account.total, hraised]
  · rw [hfailures, hf]
    rfl

/-- **What sessions ask for raises conflicts only,** and the writer is not asked. -/
theorem Matches.of_asked (h : Step task s e s') (ha : Session.Asked table e.request) :
    s.Matches s' := by
  cases h with
  | log => exact .refl s
  | @count _ metric =>
    cases ha with
    | conflict action =>
      refine ⟨fun name labels hn => ?_, rfl⟩
      show Metric.total name labels (_ :: s.raised) = Metric.total name labels s.raised
      rw [Metric.total_cons, if_neg fun h => hn h.1.symm, Nat.add_zero]
  | ask hr hs =>
    refine .of_ask (.ask hr hs) hr ?_
    obtain ⟨r, x⟩ := e
    cases ha <;> rfl

end Account

namespace Program

variable {α β σ : Type} {step : σ → Exchange → σ → Prop} {s s' s'' : σ}

/-- From the first state the program may come to its end with a result in the second one: each
of its requests, reports among them, has an answer that `step` allows. -/
inductive Comes (step : σ → Exchange → σ → Prop) : Program α → σ → α → σ → Prop where
  | done {a : α} {s : σ} : Comes step (.done a) s a s
  | ask {r : Request} {next : r.Answer → Program α} {x : r.Answer} {a : α} {s s' s'' : σ}
      (hs : step s ⟨r, x⟩ s') (h : Comes step (next x) s' a s'') :
      Comes step (.ask r next) s a s''

/-- What two programs one after the other come to, the second has come to from what the first one
came to. -/
theorem Comes.of_bind {p : Program α} {f : α → Program β} {b : β}
    (h : (p.bind f).Comes step s b s'') :
    ∃ a s', p.Comes step s a s' ∧ (f a).Comes step s' b s'' := by
  induction p generalizing s with
  | done a => exact ⟨a, s, .done, h⟩
  | ask r next ih =>
    cases h with
    | ask hs h =>
      obtain ⟨a, s', hp, hf⟩ := ih _ h
      exact ⟨a, s', .ask hs hp, hf⟩

/-- Spans make no difference where none is seen. -/
theorem Comes.of_within {p : Program α} {span : Span} {a : α}
    (h : (p.within span).Comes step s a s')
    (hstep : ∀ {s e s'}, step s ⟨.report (e.within span), ()⟩ s' → step s ⟨.report e, ()⟩ s') :
    p.Comes step s a s' := by
  induction p generalizing s with
  | done => exact h
  | ask r next ih =>
    cases r with
    | storage r =>
      cases h with
      | ask hs h => exact .ask hs (ih _ h)
    | ingest timestamp batch =>
      cases h with
      | ask hs h => exact .ask hs (ih _ h)
    | merge timestamp plan =>
      cases h with
      | ask hs h => exact .ask hs (ih _ h)
    | report e =>
      cases h with
      | ask hs h => exact .ask (hstep hs) (ih _ h)

/-- A run is one of what the program may come to if each of its answers is allowed. -/
theorem comes_run {answer : (r : Request) → σ → r.Answer × σ}
    (h : ∀ r s, step s ⟨r, (answer r s).1⟩ (answer r s).2) (p : Program α) (s : σ) :
    p.Comes step s (p.run answer s).1 (p.run answer s).2 := by
  induction p generalizing s with
  | done a => exact .done
  | ask r next ih => exact .ask (h r s) (ih _ _)

/-- What is safe comes true in an account, if the program asks for what sessions ask for. -/
theorem Safe.of_comes {p : Program α} {task : Nat} {table : Table} {waits : History → Prop}
    {post : α → History → Prop} {h : History} {s s' : Account} {a : α}
    (hp : p.Safe (History.Step task) waits post h) (ha : p.Asks (Session.Asked table))
    (hs : s.history = h) (hc : p.Comes (Account.Step task) s a s') :
    s.Matches s' ∧ post a s'.history := by
  induction hc generalizing h with
  | @done a s =>
    cases hp with
    | done hpost => exact ⟨.refl s, hs ▸ hpost⟩
  | @ask r next x a s s₁ s' hstep _ ih =>
    cases ha with
    | ask hr ha =>
      have hnext : (next x).Safe (History.Step task) waits post s₁.history := by
        cases hp with
        | report hp =>
          cases hstep with
          | log => exact hs ▸ hp
          | count => exact hs ▸ hp
          | ask hreport => cases hreport
        | ask hreport _ hp => exact hp x s₁.history (hs ▸ (hstep.of_ask hreport).1)
      obtain ⟨hm, hpost⟩ := ih hnext (ha x) rfl
      exact ⟨(Account.Matches.of_asked hstep hr).trans hm, hpost⟩

end Program

namespace Call

variable {α β : Type} {task : Nat} {fails fails' : Error → Account → Prop}
  {gives gives' : α → Timeline → Account → Prop} {c : Call α} {v : Timeline} {s : Account}

/-- Whatever the call comes to, `fails` holds of the account if it fails, and `gives` if it gives
a result with a view. -/
def Ensures (task : Nat) (fails : Error → Account → Prop)
    (gives : α → Timeline → Account → Prop) (c : Call α) (view : Timeline) (s : Account) : Prop :=
  ∀ r s', (c.program view).Comes (Account.Step task) s r s' → Ends fails gives r s'

/-- What is ensured is also what follows from it. -/
theorem Ensures.mono (h : c.Ensures task fails gives v s) (hf : ∀ e s, fails e s → fails' e s)
    (hg : ∀ a w s, gives a w s → gives' a w s) : c.Ensures task fails' gives' v s := by
  rintro ⟨e | a, w⟩ s' hc
  · exact hf e s' (h _ s' hc)
  · exact hg a w s' (h _ s' hc)

/-- **One call after the other:** the second starts from the result, the view and the account
of the first. -/
theorem Ensures.bind {f : α → Call β} {gives' : β → Timeline → Account → Prop}
    (h : c.Ensures task fails gives v s)
    (hf : ∀ a w s, gives a w s → (f a).Ensures task fails gives' w s) :
    (c >>= f).Ensures task fails gives' v s := by
  intro r s'' hc
  obtain ⟨⟨e | a, w⟩, s', hp, hnext⟩ := Program.Comes.of_bind hc
  · cases hnext with
    | done => exact h _ _ hp
  · exact hf a w s' (h _ s' hp) r s'' hnext

/-- A call that gives a result at once raises nothing. -/
theorem ensures_pure {a : α} (h : gives a v s) :
    (pure a : Call α).Ensures task fails gives v s := by
  intro r s' hc
  cases hc with
  | done => exact h

/-- A call that fails at once raises nothing. -/
theorem ensures_throw {e : Error} (h : fails e s) :
    (throw e : Call α).Ensures task fails gives v s := by
  intro r s' hc
  cases hc with
  | done => exact h

/-- A call goes on from its view. -/
theorem ensures_view {f : Timeline → Call α} (h : (f v).Ensures task fails gives v s) :
    (Call.view >>= f).Ensures task fails gives v s :=
  h

/-- A notice raises nothing. -/
theorem ensures_log {n : Notice} {f : Unit → Call α} (h : (f ()).Ensures task fails gives v s) :
    (Call.log n >>= f).Ensures task fails gives v s := by
  intro r s' hc
  cases hc with
  | ask hs hc =>
    cases hs with
    | log => exact h r s' hc
    | ask hr => cases hr

/-- A metric is raised, and the call goes on. -/
theorem ensures_count {m : Metric} {f : Unit → Call α}
    (h : (f ()).Ensures task fails gives v (s.raise m)) :
    (Call.count m >>= f).Ensures task fails gives v s := by
  intro r s' hc
  cases hc with
  | ask hs hc =>
    cases hs with
    | count => exact h r s' hc
    | ask hr => cases hr

/-- A call goes on with every answer of the writer to an ingestion. -/
theorem ensures_ingest {t : Timestamp} {b : Batch} {f : Except Error CommitMetadata → Call α}
    (h : ∀ x s', Account.Step task s ⟨.ingest t b, x⟩ s' →
      (f x).Ensures task fails gives v s') :
    (Call.ingest t b >>= f).Ensures task fails gives v s := by
  intro r s' hc
  cases hc with
  | ask hs hc => exact h _ _ hs r s' hc

/-- A call goes on with every answer of the writer to a merge. -/
theorem ensures_merge {t : Timestamp} {p : Plan} {f : Except Error Unit → Call α}
    (h : ∀ x s', Account.Step task s ⟨.merge t p, x⟩ s' →
      (f x).Ensures task fails gives v s') :
    (Call.merge t p >>= f).Ensures task fails gives v s := by
  intro r s' hc
  cases hc with
  | ask hs hc => exact h _ _ hs r s' hc

/-- A span raises nothing. -/
theorem ensures_within (span : Span) (h : c.Ensures task fails gives v s) :
    (Call.within span c).Ensures task fails gives v s := by
  intro r s' hc
  refine h r s' (Program.Comes.of_within hc ?_)
  intro s e s' hs
  cases e with
  | log notice spans =>
    cases hs with
    | log => exact .log
    | ask hr => cases hr
  | count metric =>
    cases hs with
    | count => exact .count
    | ask hr => cases hr

/-- **What is safe of a session holds in the account,** and the totals stay as they were. -/
theorem Safe.ensures {table : Table} {waits : History → Prop} {fails : Error → History → Prop}
    {gives : α → Timeline → History → Prop}
    (hc : c.Safe (History.Step task) waits fails gives v s.history)
    (ha : c.Asks (Session.Asked table)) :
    c.Ensures task (fun e s' => s.Matches s' ∧ fails e s'.history)
      (fun a w s' => s.Matches s' ∧ gives a w s'.history) v s := by
  intro r s' hr
  have hpost := Program.Safe.of_comes hc (ha v) rfl hr
  obtain ⟨e | a, w⟩ := r
  · exact hpost
  · exact hpost

end Call

namespace Account

variable {α : Type}

/-- The account after an exchange that leaves some objects. -/
def record (s : Account) (task : Nat) (e : Exchange) (objects : Storage.Objects) : Account :=
  match e with
  | ⟨.report (.log ..), _⟩ => s
  | ⟨.report (.count metric), _⟩ => s.raise metric
  | e => ⟨⟨⟨task, e⟩ :: s.history.acts, objects⟩, s.raised⟩

/-- Does in calm what a request asks for, and keeps the account. -/
def answer (o : Calm) (task : Nat) (r : Request) (s : Account) : r.Answer × Account :=
  let x := o.answer r ⟨s.history.objects, []⟩
  (x.1, s.record task ⟨r, x.1⟩ x.2.objects)

/-- What is answered in calm is a step of the account. -/
theorem step_answer (o : Calm) (task : Nat) (r : Request) (s : Account) :
    Step task s ⟨r, (answer o task r s).1⟩ (answer o task r s).2 := by
  have hleads : Exchange.Leads s.history.objects ⟨r, (answer o task r s).1⟩
      (o.answer r ⟨s.history.objects, []⟩).2.objects :=
    Calm.Step.leads (o := o) (s := ⟨s.history.objects, []⟩) rfl
  cases r with
  | report e =>
    cases e with
    | log notice spans => exact .log
    | count metric => exact .count
  | storage r => exact .ask rfl (.mk hleads)
  | ingest timestamp batch => exact .ask rfl (.mk hleads)
  | merge timestamp plan => exact .ask rfl (.mk hleads)

/-- What a program comes to in calm is possible. -/
theorem comes_run (o : Calm) (task : Nat) (p : Program α) (s : Account) :
    p.Comes (Step task) s (p.run (answer o task) s).1 (p.run (answer o task) s).2 :=
  Program.comes_run (step_answer o task) p s

end Account
end CommitTimeline
