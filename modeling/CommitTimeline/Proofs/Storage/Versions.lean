/-
# Versions of stored objects

Storage that is asked one thing after the other answers from what it was asked to write.
`Simulation.writesTo` are the data that were written to a path so far, in their order; the object at
the path holds the last of them, and its version is their number (`find?_replay`). So a write
under the condition that there is no object takes place only as the first one at its path, and one
under the condition of a version only as the write that follows this version.

A version that was reported as the current one is therefore good for one write, and just as long
as nobody has written to the path since (`wins_version_iff`).
-/

import CommitTimeline.Proofs.Program.Calm
import CommitTimeline.Proofs.Session.Reload
import CommitTimeline.Proofs.Simulation.Traced

namespace CommitTimeline
namespace Simulation

namespace Answered

/-- A write to the path under the condition took place. -/
def Wins (path : String) (condition : Storage.Precondition) (x : Answered) : Prop :=
  ∃ data version, x = ⟨.put path data condition, .ok (.stored version)⟩

/-- The answer gives the version that an object at the path has now, or `0` where there is
none. -/
def Reports (path token : String) (x : Answered) : Prop :=
  (∃ known, known.version = token ∧ x = ⟨.head path, .ok (some known)⟩) ∨
    ∃ data condition, x = ⟨.put path data condition, .ok (.stored token)⟩ ∨
      x = ⟨.put path data condition, .ok (.conflict token)⟩

/-- What the answer tells to have been written to the path. -/
def written? (path : String) (x : Answered) : Option Bytes :=
  match Exchange.write? ⟨.storage x.1, x.2⟩ with
  | some (p, data) => if p = path then some data else none
  | none => none

end Answered

/-- What has been written to a path, the earliest first. -/
def writesTo (path : String) (xs : List Answered) : List Bytes :=
  xs.filterMap (Answered.written? path)

/-- The object at a path after these data have been written to it. -/
def latest? (written : List Bytes) : Option Storage.Object :=
  written.getLast?.map fun data => ⟨data, written.length⟩

/-- The token of the version that an object has after so many writes. -/
def tokenOf (n : Nat) : String :=
  String.ofList (Text.numeral n)

section Writes

variable {path : String} {xs ys : List Answered} {x : Answered} {written : List Bytes}

/-- What two parts of a run have written to a path. -/
theorem writesTo_append : writesTo path (xs ++ ys) = writesTo path xs ++ writesTo path ys :=
  List.filterMap_append

/-- What the first request has written to a path comes first. -/
theorem writesTo_cons : writesTo path (x :: xs) = writesTo path [x] ++ writesTo path xs := by
  rw [← writesTo_append, List.singleton_append]

/-- A put that took place has written its data. -/
theorem writesTo_stored {data : Bytes} {condition : Storage.Precondition} {version : String} :
    writesTo path [⟨.put path data condition, .ok (.stored version)⟩] = [data] :=
  List.filterMap_cons_some (if_pos rfl)

/-- What was written last is stored, and its version counts the writes. -/
theorem latest?_append (data : Bytes) :
    latest? (written ++ [data]) = some ⟨data, written.length + 1⟩ := by
  simp [latest?]

/-- Nothing is stored just where nothing was written. -/
theorem latest?_eq_none : latest? written = none ↔ written = [] := by
  simp [latest?]

/-- The version counts the writes. -/
theorem version_of_latest? {o : Storage.Object} (h : latest? written = some o) :
    o.version = written.length := by
  obtain ⟨data, -, rfl⟩ := Option.map_eq_some_iff.1 h
  rfl

/-- The version counts the writes, also if there were none. -/
theorem getD_version_latest? : ((latest? written).map (·.version)).getD 0 = written.length := by
  cases h : latest? written with
  | none => rw [latest?_eq_none.1 h]; rfl
  | some o => exact version_of_latest? h

/-- The token names how often was written, also if it was never. -/
theorem getD_token_latest? :
    ((latest? written).map (·.token)).getD "0" = tokenOf written.length := by
  cases h : latest? written with
  | none => rw [latest?_eq_none.1 h]; decide +kernel
  | some o => exact congrArg tokenOf (version_of_latest? h)

/-- A token that is the numeral of a version is good for a write just if there is an object, and
this is its version. -/
theorem allows_tokenOf {n : Nat} :
    Storage.Objects.allows (.version (tokenOf n)) (latest? written) = true ↔
      written.length = n ∧ written ≠ [] := by
  cases h : latest? written with
  | none =>
    refine iff_of_false Bool.false_ne_true fun hn => ?_
    exact hn.2 (latest?_eq_none.1 h)
  | some o =>
    have hne : written ≠ [] := fun he => by
      rw [latest?_eq_none.2 he] at h
      cases h
    show o.isNamedBy (tokenOf n) = true ↔ _
    rw [Storage.Object.isNamedBy, tokenOf, String.toList_ofList, Text.integer?_numeral,
      decide_eq_true_iff, Option.some.injEq, Int.ofNat_inj, version_of_latest? h]
    exact ⟨fun hn => ⟨hn.symm, hne⟩, fun hn => hn.1.symm⟩

/-- A condition other than none fixes the number of writes so far. -/
theorem length_eq_of_allows {condition : Storage.Precondition} {written' : List Bytes}
    (hc : condition ≠ .anything)
    (h : Storage.Objects.allows condition (latest? written) = true)
    (h' : Storage.Objects.allows condition (latest? written') = true) :
    written.length = written'.length := by
  cases condition with
  | anything => exact absurd rfl hc
  | absent =>
    cases hw : latest? written with
    | some o => rw [hw] at h; cases h
    | none =>
      cases hw' : latest? written' with
      | some o => rw [hw'] at h'; cases h'
      | none => rw [latest?_eq_none.1 hw, latest?_eq_none.1 hw']
  | version token =>
    cases hw : latest? written with
    | none => rw [hw] at h; cases h
    | some o =>
      cases hw' : latest? written' with
      | none => rw [hw'] at h'; cases h'
      | some o' =>
        rw [hw] at h
        rw [hw'] at h'
        have hnumber := (of_decide_eq_true h).symm.trans (of_decide_eq_true h')
        rw [← version_of_latest? hw, ← version_of_latest? hw']
        exact Int.ofNat_inj.1 (Option.some.inj hnumber)

end Writes

/-- Storage answers as the outside in calm does that lists in the order of the paths. -/
theorem leads_answer (s : Storage.Objects) (r : Storage.Request) :
    Exchange.Leads s ⟨.storage r, (s.answer r).1⟩ (s.answer r).2 := by
  have hstep : Calm.plain.Step ⟨s, []⟩ ⟨.storage r, (s.answer r).1⟩ ⟨(s.answer r).2, []⟩ := by
    cases r <;> rfl
  exact hstep.leads

variable {requests : List Storage.Request} {path : String} {s : Storage.Objects}

/-- What one more answer adds to what is stored. -/
theorem find?_answer {written : List Bytes} (h : s.find? path = latest? written)
    (r : Storage.Request) : (s.answer r).2.find? path =
      latest? (written ++ writesTo path [⟨r, (s.answer r).1⟩]) := by
  have hleads := leads_answer s r
  rw [writesTo, List.filterMap_cons, List.filterMap_nil]
  cases hw : Exchange.write? ⟨.storage r, (s.answer r).1⟩ with
  | none =>
    rw [Answered.written?, hw, hleads.eq_of_idle hw, h]
    exact congrArg latest? (List.append_nil _).symm
  | some w =>
    obtain ⟨p, data⟩ := w
    rw [Answered.written?, hw, hleads.of_write? hw, Storage.Objects.find?_insert]
    by_cases hp : p = path
    · subst hp
      rw [if_pos rfl, h, getD_version_latest?]
      simp only [if_pos]
      exact (latest?_append data).symm
    · rw [if_neg (Ne.symm hp), h]
      simp only [if_neg hp]
      exact congrArg latest? (List.append_nil _).symm

/-- **What is stored is what was last written,** and its version is the number of writes. -/
theorem find?_replay (requests : List Storage.Request) (path : String) :
    (replay .empty requests).2.find? path =
      latest? (writesTo path (replay .empty requests).1) := by
  induction requests using List.reverseRecOn with
  | nil => rfl
  | append_singleton requests r ih =>
    rw [Traced.replay_append, writesTo_append]
    exact find?_answer ih r

/-- Every answer is the one that storage gives which was asked what was asked before. -/
theorem exists_of_replay_eq_append {l m : List Answered} {x : Answered}
    (h : (replay s requests).1 = l ++ x :: m) :
    ∃ before, (replay s before).1 = l ∧ x.2 = ((replay s before).2.answer x.1).1 := by
  induction l generalizing s requests with
  | nil =>
    cases requests with
    | nil => cases h
    | cons r requests =>
      obtain ⟨rfl, -⟩ := List.cons.inj h
      exact ⟨[], rfl, rfl⟩
  | cons y l ih =>
    cases requests with
    | nil => cases h
    | cons r requests =>
      change ⟨r, (s.answer r).1⟩ :: (replay (s.answer r).2 requests).1 = y :: (l ++ x :: m) at h
      obtain ⟨rfl, hl⟩ := List.cons.inj h
      obtain ⟨before, rfl, hx⟩ := ih hl
      exact ⟨r :: before, rfl, hx⟩

section Put

variable {l m : List Answered} {data : Bytes} {condition : Storage.Precondition} {token : String}
  {a : Except StorageError Storage.Written}

/-- **What becomes of a write** after so many writes to its path. -/
theorem put_replay (h : s.find? path = latest? (writesTo path l)) :
    s.put path data condition =
      if Storage.Objects.allows condition (latest? (writesTo path l)) then
        (.stored (tokenOf ((writesTo path l).length + 1)),
          s.insert path ⟨data, (writesTo path l).length + 1⟩)
      else (.conflict (tokenOf (writesTo path l).length), s) := by
  rw [Storage.Objects.put, h, getD_version_latest?, getD_token_latest?]
  rfl

/-- What a write is answered, wherever it stands among the requests. -/
theorem answer_of_replay (h : (replay .empty requests).1 =
      l ++ ⟨.put path data condition, a⟩ :: m) :
    a = .ok (if Storage.Objects.allows condition (latest? (writesTo path l)) then
        .stored (tokenOf ((writesTo path l).length + 1))
      else .conflict (tokenOf (writesTo path l).length)) := by
  obtain ⟨before, rfl, hx⟩ := exists_of_replay_eq_append h
  change a = .ok ((replay .empty before).2.put path data condition).1 at hx
  rw [hx, put_replay (find?_replay before path)]
  split <;> rfl

/-- A write takes place just if its condition holds of what has been written before. -/
theorem wins_iff (h : (replay .empty requests).1 = l ++ ⟨.put path data condition, a⟩ :: m) :
    Answered.Wins path condition ⟨.put path data condition, a⟩ ↔
      Storage.Objects.allows condition (latest? (writesTo path l)) = true := by
  obtain rfl := answer_of_replay h
  by_cases hc : Storage.Objects.allows condition (latest? (writesTo path l)) = true
  · rw [if_pos hc]
    exact iff_of_true ⟨data, _, rfl⟩ hc
  · rw [if_neg hc]
    refine iff_of_false ?_ hc
    rintro ⟨data', version, he⟩
    cases he

/-- **A write under a condition on the version takes place once.** After a write under the same
condition there are more writes than the condition allows. -/
theorem Answered.Wins.unique {x y : Answered} {r : List Answered} (hx : x.Wins path condition)
    (hc : condition ≠ .anything) (h : (replay .empty requests).1 = l ++ x :: (m ++ y :: r)) :
    ¬y.Wins path condition := by
  rintro ⟨data', version', rfl⟩
  obtain ⟨data, version, rfl⟩ := hx
  have hfirst := (wins_iff h).1 ⟨data, version, rfl⟩
  rw [← List.cons_append, ← List.append_assoc] at h
  have hsecond := (wins_iff h).1 ⟨data', version', rfl⟩
  have hlength := length_eq_of_allows hc hfirst hsecond
  rw [writesTo_append, writesTo_cons, writesTo_stored] at hlength
  simp only [List.length_append, List.length_cons, List.length_nil] at hlength
  omega

/-- **A reported version is the number of writes** up to the answer that reports it. -/
theorem Answered.Reports.token_eq {x : Answered} (hx : x.Reports path token)
    (h : (replay .empty requests).1 = l ++ x :: m) :
    token = tokenOf (writesTo path (l ++ [x])).length := by
  rw [writesTo_append]
  obtain ⟨known, rfl, rfl⟩ | ⟨data, condition, rfl | rfl⟩ := hx
  · obtain ⟨before, rfl, hx⟩ := exists_of_replay_eq_append h
    change Except.ok (some known) =
      .ok (((replay .empty before).2.find? path).map (·.describe path)) at hx
    rw [find?_replay, Except.ok.injEq] at hx
    obtain ⟨o, ho, rfl⟩ := Option.map_eq_some_iff.1 hx.symm
    exact congrArg tokenOf ((version_of_latest? ho).trans (congrArg _ (List.append_nil _).symm))
  · have ha := answer_of_replay h
    split at ha
    · obtain rfl := Storage.Written.stored.inj (Except.ok.inj ha)
      rw [writesTo_stored, List.length_append]
      rfl
    · cases ha
  · have ha := answer_of_replay h
    split at ha
    · cases ha
    · obtain rfl := Storage.Written.conflict.inj (Except.ok.inj ha)
      exact congrArg (fun l => tokenOf (List.length l)) (List.append_nil _).symm

/-- **A reported version is good for a write** just if there is an object, and as long as nobody
has written to its path since. -/
theorem wins_version_iff {x : Answered} {r : List Answered} (hx : x.Reports path token)
    (h : (replay .empty requests).1 =
      l ++ x :: (m ++ ⟨.put path data (.version token), a⟩ :: r)) :
    Answered.Wins path (.version token) ⟨.put path data (.version token), a⟩ ↔
      writesTo path m = [] ∧ writesTo path (l ++ [x]) ≠ [] := by
  have htoken := hx.token_eq h
  rw [← List.cons_append, ← List.append_assoc] at h
  rw [wins_iff h, htoken, allows_tokenOf, List.append_cons, writesTo_append, List.length_append,
    ← List.length_eq_zero_iff, List.ne_nil_iff_length_pos, List.ne_nil_iff_length_pos,
    List.length_append]
  omega

end Put

/-- What is known of an object after these data have been written to its path. -/
def known? (path : String) (written : List Bytes) : Option Storage.Meta :=
  written.getLast?.map fun data => ⟨path, data.length, tokenOf written.length⟩

/-- What is known of an object is told by what was written. -/
theorem map_describe_latest? (written : List Bytes) :
    (latest? written).map (·.describe path) = known? path written := by
  rw [latest?, Option.map_map]
  rfl

/-- A listing describes each object whose path starts with the text, and nothing else. -/
theorem mem_list_iff {start : String} {known : Storage.Meta} :
    known ∈ s.list start ↔ start.toList.isPrefixOf known.path.toList = true ∧
      (s.find? known.path).map (·.describe known.path) = some known := by
  constructor
  · intro h
    obtain ⟨⟨p, o⟩, he, rfl⟩ := List.mem_map.1 h
    obtain ⟨he, hp⟩ := List.mem_filter.1 he
    exact ⟨hp, by rw [show (o.describe p).path = p from rfl,
      Storage.Objects.find?_of_mem_entries he]; rfl⟩
  · rintro ⟨hp, h⟩
    obtain ⟨o, ho, he⟩ := Option.map_eq_some_iff.1 h
    rw [← he]
    exact Storage.Objects.describe_mem_list ho hp

/-- **Compare and swap.** Whatever storage was asked, one thing after the other: each path holds
what was last written to it, under the number of its writes as the version, and this is what is
read, described and listed. A write that its condition refuses tells the version that there is (`0`
where there is none) and changes nothing; one that takes place gives the next version and changes
its own path only. Of the writes to a path under the condition that there is no object, or under
that of one version, at most one takes place; and one under a version that was reported as the
current one takes place just if there is an object and nobody has written to the path
since. -/
theorem compare_and_swap (requests : List Storage.Request) :
    let xs := (replay .empty requests).1
    let s := (replay .empty requests).2
    (∀ path, s.find? path = latest? (writesTo path xs)) ∧
    (∀ path, (s.answer (.get path)).1 = match (writesTo path xs).getLast? with
      | some data => .ok data
      | none => .error (.missing path)) ∧
    (∀ path, (s.answer (.head path)).1 = .ok (known? path (writesTo path xs))) ∧
    (∀ start, ∃ found : List Storage.Meta,
      (s.answer (.list start)).1 = .ok found ∧ (found.map (·.path)).Nodup ∧
      ∀ known, known ∈ found ↔ start.toList.isPrefixOf known.path.toList = true ∧
        known? known.path (writesTo known.path xs) = some known) ∧
    (∀ path data condition,
      match s.put path data condition with
      | (.stored version, s') => version = tokenOf ((writesTo path xs).length + 1) ∧
          s'.find? path = some ⟨data, (writesTo path xs).length + 1⟩ ∧
          ∀ p ≠ path, s'.find? p = s.find? p
      | (.conflict current, s') => current = tokenOf (writesTo path xs).length ∧ s' = s) ∧
    (∀ l x m y r path condition, xs = l ++ x :: (m ++ y :: r) → condition ≠ .anything →
      x.Wins path condition → ¬y.Wins path condition) ∧
    ∀ l x m r path token data a,
      xs = l ++ x :: (m ++ ⟨.put path data (.version token), a⟩ :: r) → x.Reports path token →
      (Answered.Wins path (.version token) ⟨.put path data (.version token), a⟩ ↔
        writesTo path m = [] ∧ writesTo path (l ++ [x]) ≠ []) := by
  intro xs s
  have hfind : ∀ path, s.find? path = latest? (writesTo path xs) := find?_replay requests
  refine ⟨hfind, ?_, ?_, ?_, ?_, ?_, ?_⟩
  · intro path
    rw [Storage.Objects.answer, hfind, latest?]
    cases (writesTo path xs).getLast? <;> rfl
  · intro path
    show Except.ok _ = _
    rw [hfind, map_describe_latest?]
  · intro start
    refine ⟨s.list start, rfl, s.nodup_list start, fun known => ?_⟩
    rw [mem_list_iff, hfind, map_describe_latest?]
  · intro path data condition
    rw [put_replay (hfind path)]
    by_cases hc : Storage.Objects.allows condition (latest? (writesTo path xs)) = true
    · rw [if_pos hc]
      refine ⟨rfl, ?_, fun p hp => ?_⟩
      · rw [Storage.Objects.find?_insert, if_pos rfl]
      · rw [Storage.Objects.find?_insert, if_neg hp]
    · rw [if_neg hc]
      exact ⟨rfl, rfl⟩
  · intro l x m y r path condition h hc hx
    exact hx.unique hc h
  · intro l x m r path token data a h hx
    exact wins_version_iff hx h

/-- An object is created and described. The version is good for one write, and the second one under
it is refused. -/
theorem compare_and_swap_of_stale :
    let first : Answered := ⟨.put "a" [1] .absent, .ok (.stored "1")⟩
    let seen : Answered := ⟨.head "a", .ok (some ⟨"a", 1, "1"⟩)⟩
    let second : Answered := ⟨.put "a" [2] (.version "1"), .ok (.stored "2")⟩
    let third : Answered := ⟨.put "a" [3] (.version "1"), .ok (.conflict "2")⟩
    let xs := (replay .empty ([first, seen, second, third].map (·.1))).1
    xs = [first, seen, second, third] ∧ second.Wins "a" (.version "1") ∧
      ¬third.Wins "a" (.version "1") := by
  intro first seen second third xs
  have hxs : xs = [first, seen, second, third] := by with_unfolding_all rfl
  obtain ⟨-, -, -, -, -, honce, hcurrent⟩ :=
    compare_and_swap ([first, seen, second, third].map (·.1))
  have hseen : seen.Reports "a" "1" := .inl ⟨_, rfl, rfl⟩
  have hsecond : second.Wins "a" (.version "1") :=
    (hcurrent [first] seen [] [third] "a" "1" [2] _ hxs hseen).2 ⟨rfl, List.cons_ne_nil _ _⟩
  exact ⟨hxs, hsecond, honce [first, seen] second [] third [] "a" _ hxs (by decide) hsecond⟩

end Simulation
end CommitTimeline
