import Determined.Schemes.Run
import Determined.Searcher.ExperimentRuns
import Determined.Searcher.SyncHalving

/-! Tournament search (`pkg/searcher/tournament.go`) runs several search methods in tandem. The
    adaptive searches are tournaments of halving searches.

    A tournament is a faithful parallel composition (`tournament_composes`): each sub-search sees the
    events of the trials it created, and nothing else, as if it ran alone on the random draws it made.
    A sub-search, a pointer in the code, is named by its place in the list; sub-searches of several
    kinds have a sum as their common type of states. -/

namespace Determined.Searcher
open Determined.Model Determined.Schemes

variable {ι σ : Type}

/-- A search method with its state. -/
structure SubSearch (σ ι : Type) where
  method : SearchMethod σ ι
  state : σ

/-- The sub-searches, the units each has completed, and which of them created each trial. -/
structure TournamentSearch (σ ι : Type) where
  subSearches : List (SubSearch σ ι)
  subSearchUnitsCompleted : ℕ → ℚ
  trialTable : ι → Option ℕ

def newTournamentSearch (subSearches : List (SubSearch σ ι)) : TournamentSearch σ ι :=
  ⟨subSearches, fun _ => 0, fun _ => none⟩

variable [DecidableEq ι]

/-- Enter the trials that the operations create into the table. -/
def markCreate (subSearch : ℕ) (table : ι → Option ℕ) : Operation ι → ι → Option ℕ
  | .create create => Function.update table create.requestID (some subSearch)
  | _ => table

namespace TournamentSearch

variable (s : TournamentSearch σ ι)

def markCreates (subSearch : ℕ) (ops : List (Operation ι)) : TournamentSearch σ ι :=
  { s with trialTable := ops.foldl (markCreate subSearch) s.trialTable }

/-- What a sub-search's callback leaves. -/
def leave (subSearch : ℕ) (out : Outcome σ ι) : TournamentSearch σ ι :=
  let s := { s with
    subSearches := s.subSearches.modify subSearch fun sub => { sub with state := out.method } }
  s.markCreates subSearch out.ops

/-- The initial operations of the next sub-search. -/
def startNext (acc : Outcome (TournamentSearch σ ι) ι) (sub : SubSearch σ ι × ℕ) :
    Except Fault (Outcome (TournamentSearch σ ι) ι) := do
  let out ← sub.1.method.initialOperations sub.1.state acc.rand
  return ⟨acc.ops ++ out.ops, acc.method.leave sub.2 out, out.rand⟩

def initialOperations (rand : Rand ι) : Except Fault (Outcome (TournamentSearch σ ι) ι) :=
  s.subSearches.zipIdx.foldlM startNext ⟨[], s, rand⟩

/-- Hand a callback to the sub-search that created the trial. -/
def relay (r : ι) (callback : SearchMethod σ ι → σ → Except Fault (Outcome σ ι)) :
    Except Fault (Outcome (TournamentSearch σ ι) ι) :=
  match s.trialTable r with
  | none => .error (.panic "nil pointer dereference")
  | some i => match s.subSearches[i]? with
    | none => .error (.panic "nil pointer dereference")
    | some sub => do
      let out ← callback sub.method sub.state
      return ⟨out.ops, s.leave i out, out.rand⟩

def trialCreated (rand : Rand ι) (r : ι) : Except Fault (Outcome (TournamentSearch σ ι) ι) :=
  s.relay r fun m state => m.trialCreated state rand r

/-- Count the units that the sub-search of a trial has completed. -/
def countUnits (r : ι) (train : Runnable ι) : TournamentSearch σ ι :=
  match s.trialTable r, train with
  | some i, .train _ length =>
    let units := s.subSearchUnitsCompleted i + length.units
    { s with subSearchUnitsCompleted := Function.update s.subSearchUnitsCompleted i units }
  | _, _ => s

def trainCompleted (rand : Rand ι) (r : ι) (train : Runnable ι) :
    Except Fault (Outcome (TournamentSearch σ ι) ι) :=
  (s.countUnits r train).relay r fun m state => m.trainCompleted state rand r train

def checkpointCompleted (rand : Rand ι) (r : ι) (checkpoint : Runnable ι)
    (metrics : CheckpointMetrics) : Except Fault (Outcome (TournamentSearch σ ι) ι) :=
  s.relay r fun m state => m.checkpointCompleted state rand r checkpoint metrics

def validationCompleted (rand : Rand ι) (r : ι) (validate : Runnable ι)
    (metrics : ValidationMetrics) : Except Fault (Outcome (TournamentSearch σ ι) ι) :=
  s.relay r fun m state => m.validationCompleted state rand r validate metrics

def trialClosed (rand : Rand ι) (r : ι) : Except Fault (Outcome (TournamentSearch σ ι) ι) :=
  s.relay r fun m state => m.trialClosed state rand r

def trialExitedEarly (rand : Rand ι) (r : ι) (exitedReason : ExitedReason) :
    Except Fault (Outcome (TournamentSearch σ ι) ι) :=
  s.relay r fun m state => m.trialExitedEarly state rand r exitedReason

end TournamentSearch

/-- The callbacks of the search. -/
def tournamentMethod : SearchMethod (TournamentSearch σ ι) ι where
  initialOperations := TournamentSearch.initialOperations
  trialCreated := TournamentSearch.trialCreated
  trainCompleted := TournamentSearch.trainCompleted
  checkpointCompleted := TournamentSearch.checkpointCompleted
  validationCompleted := TournamentSearch.validationCompleted
  trialClosed := TournamentSearch.trialClosed
  trialExitedEarly := TournamentSearch.trialExitedEarly

/-! ### Events, and runs of a search method alone -/

/-- An event of a trial, as a search method is told of it. -/
inductive Call (ι : Type) where
  | trialCreated (requestID : ι)
  | trainCompleted (requestID : ι) (train : Runnable ι)
  | checkpointCompleted (requestID : ι) (checkpoint : Runnable ι) (metrics : CheckpointMetrics)
  | validationCompleted (requestID : ι) (validate : Runnable ι) (metrics : ValidationMetrics)
  | trialClosed (requestID : ι)
  | trialExitedEarly (requestID : ι) (exitedReason : ExitedReason)
  deriving DecidableEq, Repr

def Call.requestID : Call ι → ι
  | .trialCreated r | .trainCompleted r _ | .checkpointCompleted r _ _ | .validationCompleted r _ _
  | .trialClosed r | .trialExitedEarly r _ => r

/-- Tell a search method of an event. -/
def SearchMethod.call (m : SearchMethod σ ι) (s : σ) (rand : Rand ι) :
    Call ι → Except Fault (Outcome σ ι)
  | .trialCreated r => m.trialCreated s rand r
  | .trainCompleted r train => m.trainCompleted s rand r train
  | .checkpointCompleted r checkpoint metrics => m.checkpointCompleted s rand r checkpoint metrics
  | .validationCompleted r validate metrics => m.validationCompleted s rand r validate metrics
  | .trialClosed r => m.trialClosed s rand r
  | .trialExitedEarly r exitedReason => m.trialExitedEarly s rand r exitedReason

/-- An event with what comes of it: the operations, and the random state before and after. -/
structure Turn (ι : Type) where
  call : Call ι
  before : Rand ι
  ops : List (Operation ι)
  after : Rand ι

/-- The search method takes a turn: it answers the event with these operations and these draws. -/
def SearchMethod.Takes (m : SearchMethod σ ι) (s : σ) (turn : Turn ι) (t : σ) : Prop :=
  m.call s turn.before turn.call = .ok ⟨turn.ops, t, turn.after⟩

/-- The search method takes the turns one after the other. -/
def SearchMethod.Plays (m : SearchMethod σ ι) (s : σ) (turns : List (Turn ι)) (t : σ) : Prop :=
  ∃ tr, Run m.Takes s tr t ∧ tr.map (·.event) = turns

omit [DecidableEq ι] in
theorem SearchMethod.Plays.nil (m : SearchMethod σ ι) (s : σ) : m.Plays s [] s := ⟨[], .nil s, rfl⟩

omit [DecidableEq ι] in
theorem SearchMethod.Plays.cons {m : SearchMethod σ ι} {s t u : σ} {turn : Turn ι}
    {turns : List (Turn ι)} (hst : m.Takes s turn t) (h : m.Plays t turns u) :
    m.Plays s (turn :: turns) u := by
  obtain ⟨tr, hrun, rfl⟩ := h
  exact ⟨_, .cons hst hrun, rfl⟩

/-- Play the events one after the other, each on the random state the one before left. -/
def SearchMethod.play (m : SearchMethod σ ι) :
    σ → Rand ι → List (Call ι) → Except Fault (List (Turn ι) × σ)
  | s, _, [] => .ok ([], s)
  | s, rand, call :: calls => do
    let out ← m.call s rand call
    let (turns, t) ← m.play out.method out.rand calls
    return (⟨call, rand, out.ops, out.rand⟩ :: turns, t)

omit [DecidableEq ι] in
theorem SearchMethod.plays_of_play {m : SearchMethod σ ι} {calls : List (Call ι)} :
    ∀ {s t : σ} {rand : Rand ι} {turns : List (Turn ι)}, m.play s rand calls = .ok (turns, t) →
      m.Plays s turns t := by
  induction calls with
  | nil =>
    intro s t rand turns h
    cases h
    exact .nil m s
  | cons call calls ih =>
    intro s t rand turns h
    obtain ⟨out, hout, hrest⟩ := bind_eq_ok.mp h
    obtain ⟨⟨turns', t'⟩, hplay, heq⟩ := bind_eq_ok.mp hrest
    cases heq
    exact .cons hout (ih hplay)

omit [DecidableEq ι] in
theorem SearchMethod.play_calls {m : SearchMethod σ ι} {calls : List (Call ι)} :
    ∀ {s : σ} {rand : Rand ι} {played : List (Turn ι) × σ}, m.play s rand calls = .ok played →
      played.1.map (·.call) = calls := by
  induction calls with
  | nil =>
    intro s rand played h
    cases h
    rfl
  | cons call calls ih =>
    intro s rand played h
    obtain ⟨out, hout, hrest⟩ := bind_eq_ok.mp h
    obtain ⟨played', hplay, heq⟩ := bind_eq_ok.mp hrest
    cases heq
    rw [List.map_cons, ih hplay]

/-! ### Who created a trial -/

/-- The sub-search whose operations, among those issued so far, created the trial last. -/
def creator : List (ℕ × List (Operation ι)) → ι → Option ℕ
  | [], _ => none
  | (i, ops) :: issued, r =>
    (creator issued r).or (if r ∈ (creates ops).map (·.requestID) then some i else none)

theorem creator_append (l l' : List (ℕ × List (Operation ι))) (r : ι) :
    creator (l ++ l') r = (creator l' r).or (creator l r) := by
  induction l with
  | nil => simp [creator]
  | cons p l ih => rw [List.cons_append, creator, ih, creator, Option.or_assoc]

theorem creator_concat (l : List (ℕ × List (Operation ι))) (i : ℕ) (ops : List (Operation ι)) (r : ι) :
    creator (l ++ [(i, ops)]) r =
      if r ∈ (creates ops).map (·.requestID) then some i else creator l r := by
  rw [creator_append, creator, creator, Option.none_or]
  split <;> rfl

/-- The creator of a trial has issued a `Create` of it. -/
theorem creator_spec {l : List (ℕ × List (Operation ι))} {r : ι} {i : ℕ} (h : creator l r = some i) :
    ∃ ops, (i, ops) ∈ l ∧ ∃ c ∈ creates ops, c.requestID = r := by
  induction l with
  | nil => cases h
  | cons p l ih =>
    rw [creator, Option.or_eq_some_iff] at h
    rcases h with h | ⟨-, h⟩
    · obtain ⟨ops, hops, hc⟩ := ih h
      exact ⟨ops, List.mem_cons_of_mem _ hops, hc⟩
    · split at h
      · rename_i hmem
        cases h
        exact ⟨p.2, List.mem_cons_self .., List.mem_map.mp hmem⟩
      · cases h

/-- The table after some operations of a sub-search. -/
theorem foldl_markCreate (i : ℕ) (ops : List (Operation ι)) : ∀ (table : ι → Option ℕ) (r : ι),
    ops.foldl (markCreate i) table r =
      if r ∈ (creates ops).map (·.requestID) then some i else table r := by
  induction ops with
  | nil => exact fun table r => rfl
  | cons op ops ih =>
    intro table r
    rw [List.foldl_cons, ih]
    cases op with
    | create c =>
      rw [creates_create, List.map_cons]
      by_cases hr : r ∈ (creates ops).map (·.requestID)
      · simp [hr]
      · by_cases hc : r = c.requestID <;> simp [hr, hc, markCreate]
    | runnable op => rfl
    | close r' => rfl
    | shutdown b => rfl

/-! ### The composition -/

namespace TournamentSearch

variable {s t : TournamentSearch σ ι} {rand : Rand ι}

theorem leave_subSearches (i : ℕ) (out : Outcome σ ι) (j : ℕ) :
    (s.leave i out).subSearches[j]? = if i = j then
      (s.subSearches[j]?).map fun sub => { sub with state := out.method } else s.subSearches[j]? := by
  rw [leave, markCreates, List.getElem?_modify]
  split
  · rfl
  · exact Option.map_id'

/-- What a callback of the tournament does: the creator of the trial answers. -/
theorem relay_spec {r : ι} {callback : SearchMethod σ ι → σ → Except Fault (Outcome σ ι)}
    {out : Outcome (TournamentSearch σ ι) ι} (h : s.relay r callback = .ok out) :
    ∃ i sub out', s.trialTable r = some i ∧ s.subSearches[i]? = some sub ∧
      callback sub.method sub.state = .ok out' ∧ out = ⟨out'.ops, s.leave i out', out'.rand⟩ := by
  unfold relay at h
  split at h
  · cases h
  · rename_i i hi
    split at h
    · cases h
    · rename_i sub hsub
      obtain ⟨out', hout, heq⟩ := bind_eq_ok.mp h
      cases heq
      exact ⟨i, sub, out', hi, hsub, hout, rfl⟩

omit [DecidableEq ι] in
theorem countUnits_same (r : ι) (train : Runnable ι) :
    (s.countUnits r train).trialTable = s.trialTable ∧
      (s.countUnits r train).subSearches = s.subSearches := by
  unfold countUnits
  split
  · exact ⟨rfl, rfl⟩
  · exact ⟨rfl, rfl⟩

/-- A turn of the tournament is a turn of the creator of the trial. -/
theorem takes_spec {turn : Turn ι} (h : tournamentMethod.Takes s turn t) :
    ∃ i sub state, s.trialTable turn.call.requestID = some i ∧ s.subSearches[i]? = some sub ∧
      sub.method.Takes sub.state turn state ∧
      (∀ j, t.subSearches[j]? = if i = j then some { sub with state := state }
        else s.subSearches[j]?) ∧
      ∀ r, t.trialTable r =
        if r ∈ (creates turn.ops).map (·.requestID) then some i else s.trialTable r := by
  obtain ⟨call, before, ops, after⟩ := turn
  have hrelay : ∃ s' : TournamentSearch σ ι, s'.trialTable = s.trialTable ∧
      s'.subSearches = s.subSearches ∧ s'.relay call.requestID
        (fun m state => m.call state before call) = .ok ⟨ops, t, after⟩ := by
    cases call with
    | trainCompleted r train =>
      exact ⟨s.countUnits r train, (countUnits_same r train).1, (countUnits_same r train).2, h⟩
    | _ => exact ⟨s, rfl, rfl, h⟩
  obtain ⟨s', htable, hsubs, hok⟩ := hrelay
  obtain ⟨i, sub, out', hi, hsub, hout, heq⟩ := relay_spec hok
  cases heq
  rw [htable] at hi
  rw [hsubs] at hsub
  refine ⟨i, sub, out'.method, hi, hsub, hout, fun j => ?_, fun r => ?_⟩
  · rw [leave_subSearches, hsubs]
    split
    · rename_i hij
      rw [← hij, hsub]
      rfl
    · rfl
  · rw [leave, ← htable]
    exact foldl_markCreate i out'.ops _ r

/-- The turns of one sub-search. -/
def turnsOf (i : ℕ) (played : List (ℕ × Turn ι)) : List (Turn ι) :=
  (played.filter fun p => p.1 = i).map (·.2)

/-- The operations issued in turns, each with the sub-search that issued it. -/
def issuedIn (played : List (ℕ × Turn ι)) : List (ℕ × List (Operation ι)) :=
  played.map fun p => (p.1, p.2.ops)

/-- Each event goes to the sub-search that created the trial. -/
def Delivered : List (ℕ × List (Operation ι)) → List (ℕ × Turn ι) → Prop
  | _, [] => True
  | issued, (i, turn) :: played =>
    creator issued turn.call.requestID = some i ∧ Delivered (issued ++ [(i, turn.ops)]) played

/-- A run of the tournament, from any state with the right table. -/
theorem plays_spec {turns : List (Turn ι)} (h : tournamentMethod.Plays s turns t) :
    ∀ issued, (∀ r, s.trialTable r = creator issued r) → ∃ played, played.map (·.2) = turns ∧
      Delivered issued played ∧
      (∀ (i : ℕ) (sub : SubSearch σ ι), s.subSearches[i]? = some sub → ∃ state,
        sub.method.Plays sub.state (turnsOf i played) state ∧
          t.subSearches[i]? = some ⟨sub.method, state⟩) ∧
      ∀ r, t.trialTable r = creator (issued ++ issuedIn played) r := by
  obtain ⟨tr, hrun, rfl⟩ := h
  induction hrun with
  | nil s =>
    intro issued htable
    refine ⟨[], rfl, trivial, fun i sub hsub => ⟨sub.state, .nil _ _, hsub⟩, fun r => ?_⟩
    rw [issuedIn, List.map_nil, List.append_nil, htable]
  | @cons s u t turn tr hst hrun ih =>
    intro issued htable
    obtain ⟨i, sub, state, hi, hsub, htakes, hsubs, htable'⟩ := takes_spec hst
    obtain ⟨played, hturns, hdelivered, hplays, htable''⟩ := ih (issued ++ [(i, turn.ops)])
      fun r => by rw [htable', htable, creator_concat]
    refine ⟨(i, turn) :: played, by rw [List.map_cons, List.map_cons, hturns],
      ⟨htable _ ▸ hi, hdelivered⟩, fun j sub' hsub' => ?_, fun r => ?_⟩
    · have hj := hsubs j
      by_cases hij : i = j
      · subst hij
        rw [if_pos rfl] at hj
        obtain ⟨state', hp, ht⟩ := hplays i _ hj
        cases hsub.symm.trans hsub'
        refine ⟨state', ?_, ht⟩
        rw [turnsOf, List.filter_cons_of_pos (by simp), List.map_cons]
        exact .cons htakes hp
      · rw [if_neg hij, hsub'] at hj
        obtain ⟨state', hp, ht⟩ := hplays j _ hj
        refine ⟨state', ?_, ht⟩
        rw [turnsOf, List.filter_cons_of_neg (by simpa using hij)]
        exact hp
    · rw [htable'' r, issuedIn, List.append_assoc]
      rfl

/-- The sub-searches start one after the other, each on the random state the one before left. -/
inductive Started : Rand ι → List (SubSearch σ ι) → List (Outcome σ ι) → Rand ι → Prop
  | nil (rand : Rand ι) : Started rand [] [] rand
  | cons {rand rand' : Rand ι} {sub : SubSearch σ ι} {subs : List (SubSearch σ ι)}
      {out : Outcome σ ι} {outs : List (Outcome σ ι)} :
      sub.method.initialOperations sub.state rand = .ok out → Started out.rand subs outs rand' →
        Started rand (sub :: subs) (out :: outs) rand'

/-- The operations that the sub-searches start with, from the one with this index on. -/
def issuedFrom : ℕ → List (Outcome σ ι) → List (ℕ × List (Operation ι))
  | _, [] => []
  | i, out :: outs => (i, out.ops) :: issuedFrom (i + 1) outs

/-- A sub-search after its initial operations. -/
def resume (sub : SubSearch σ ι) (start : Option (Outcome σ ι)) : SubSearch σ ι :=
  { sub with state := (start.map (·.method)).getD sub.state }

/-- The initial operations of the sub-searches from one on. -/
theorem startNext_spec (subs : List (SubSearch σ ι)) : ∀ (n : ℕ)
    {acc out : Outcome (TournamentSearch σ ι) ι}, (subs.zipIdx n).foldlM startNext acc = .ok out →
    ∃ outs, Started acc.rand subs outs out.rand ∧ out.ops = acc.ops ++ outs.flatMap (·.ops) ∧
      (∀ j, n ≤ j → out.method.subSearches[j]? =
        (acc.method.subSearches[j]?).map fun sub => resume sub outs[j - n]?) ∧
      (∀ j < n, out.method.subSearches[j]? = acc.method.subSearches[j]?) ∧
      ∀ r, out.method.trialTable r = (creator (issuedFrom n outs) r).or (acc.method.trialTable r) := by
  induction subs with
  | nil =>
    intro n acc out h
    cases h
    refine ⟨[], .nil _, by simp, fun j _ => ?_, fun j _ => rfl, fun r => by simp [issuedFrom, creator]⟩
    simp [resume]
  | cons sub subs ih =>
    intro n acc out h
    rw [List.zipIdx_cons, List.foldlM_cons] at h
    obtain ⟨acc', hstart, hrest⟩ := bind_eq_ok.mp h
    obtain ⟨first, hfirst, heq⟩ := bind_eq_ok.mp hstart
    cases heq
    obtain ⟨outs, hstarted, hops, hfrom, hbelow, htable⟩ := ih (n + 1) hrest
    have hleave := leave_subSearches (s := acc.method) n first
    refine ⟨first :: outs, .cons hfirst hstarted, ?_, fun j hj => ?_, fun j hj => ?_, fun r => ?_⟩
    · rw [hops, List.flatMap_cons, List.append_assoc]
    · rcases Nat.eq_or_lt_of_le hj with rfl | hj
      · rw [hbelow _ (by omega), hleave, if_pos rfl, Nat.sub_self]
        rfl
      · obtain ⟨k, rfl⟩ : ∃ k, j = n + 1 + k := ⟨j - (n + 1), by omega⟩
        rw [hfrom _ (by omega), hleave, if_neg (by omega), show n + 1 + k - n = k + 1 by omega,
          Nat.add_sub_cancel_left, List.getElem?_cons_succ]
    · rw [hbelow _ (by omega), hleave, if_neg (by omega)]
    · rw [htable, issuedFrom, creator, Option.or_assoc]
      dsimp only [leave, markCreates]
      rw [foldl_markCreate]
      split <;> rfl

omit [DecidableEq ι] in
theorem Started.length_eq {rand' : Rand ι} {subs : List (SubSearch σ ι)}
    {outs : List (Outcome σ ι)} (h : Started rand subs outs rand') : outs.length = subs.length := by
  induction h with
  | nil => rfl
  | cons _ _ ih => rw [List.length_cons, List.length_cons, ih]

/-- CORRECT: a tournament is the parallel composition of its sub-searches. Its events are dealt out
    to the sub-searches, each to the one that created the trial; and with the events it gets, and the
    random draws made in them, each sub-search runs as it would alone, issuing the same operations. -/
theorem tournament_composes {subs : List (SubSearch σ ι)}
    {out : Outcome (TournamentSearch σ ι) ι} {turns : List (Turn ι)}
    (h0 : tournamentMethod.initialOperations (newTournamentSearch subs) rand = .ok out)
    (h : tournamentMethod.Plays out.method turns t) : ∃ outs played,
      Started rand subs outs out.rand ∧ out.ops = outs.flatMap (·.ops) ∧
      played.map (·.2) = turns ∧ Delivered (issuedFrom 0 outs) played ∧
      (∀ (i : ℕ) (sub : SubSearch σ ι), subs[i]? = some sub → ∃ start state,
        outs[i]? = some start ∧ sub.method.Plays start.method (turnsOf i played) state ∧
          t.subSearches[i]? = some ⟨sub.method, state⟩) ∧
      ∀ r, t.trialTable r = creator (issuedFrom 0 outs ++ issuedIn played) r := by
  obtain ⟨outs, hstarted, hops, hfrom, -, htable⟩ := startNext_spec subs 0 h0
  obtain ⟨played, hturns, hdelivered, hplays, htable'⟩ := plays_spec h (issuedFrom 0 outs)
    fun r => by rw [htable]; exact Option.or_none
  refine ⟨outs, played, hstarted, hops, hturns, hdelivered, fun i sub hsub => ?_, htable'⟩
  have hlt : i < outs.length := by
    rw [hstarted.length_eq]
    exact (List.getElem?_eq_some_iff.mp hsub).1
  have hi := hfrom i (Nat.zero_le _)
  rw [Nat.sub_zero, List.getElem?_eq_getElem hlt] at hi
  obtain ⟨state, hp, ht⟩ := hplays i (resume sub (some outs[i])) (by
    rw [hi]
    exact congrArg (Option.map _) hsub)
  exact ⟨outs[i], state, List.getElem?_eq_getElem hlt, hp, ht⟩

/-- A halving search of one trial. -/
def oneTrial : SubSearch (SyncHalvingSearch ℕ) ℕ :=
  ⟨syncHalvingMethod, newSyncHalvingSimpleSearch
    ⟨"loss", true, 1, newLengthInBatches 1, newLengthInBatches 0, 2⟩ 1⟩

/-- A run of two of them in which the second one's trial exits first. -/
def twoTrialsExit : Except Fault (List (Turn ℕ) × TournamentSearch (SyncHalvingSearch ℕ) ℕ) := do
  let out ← tournamentMethod.initialOperations (newTournamentSearch [oneTrial, oneTrial])
    ⟨id, Function.injective_id, 0⟩
  tournamentMethod.play out.method out.rand
    [.trialExitedEarly 1 .errored, .trialExitedEarly 0 .userCanceled]

theorem tournament_composes_two : ∃ (out : Outcome (TournamentSearch (SyncHalvingSearch ℕ) ℕ) ℕ)
    (outs : List (Outcome (SyncHalvingSearch ℕ) ℕ)) (played : List (ℕ × Turn ℕ)),
    Started ⟨id, Function.injective_id, 0⟩ [oneTrial, oneTrial] outs out.rand ∧
      Delivered (issuedFrom 0 outs) played ∧
      played.map (·.2.call) = [.trialExitedEarly 1 .errored, .trialExitedEarly 0 .userCanceled] := by
  have hok : twoTrialsExit.isOk := by decide +kernel
  cases hrun : twoTrialsExit with
  | error fault =>
    rw [hrun] at hok
    cases hok
  | ok turns =>
    obtain ⟨out, h0, hplay⟩ := bind_eq_ok.mp hrun
    obtain ⟨outs, played, hstarted, -, hturns, hdelivered, -⟩ :=
      tournament_composes h0 (SearchMethod.plays_of_play hplay)
    refine ⟨out, outs, played, hstarted, hdelivered, ?_⟩
    rw [← SearchMethod.play_calls hplay, ← hturns, List.map_map]
    rfl

end TournamentSearch

end Determined.Searcher
