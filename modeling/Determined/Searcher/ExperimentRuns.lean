import Determined.Searcher.Experiment

/-! What every experiment keeps to, whatever its search method: the searcher counts the trials right,
    and shuts down when all of them have closed.

    The search method comes in through the operations it answers with (`Trials.Accepts`): it creates
    trials under new request ids, and asks nothing of trials it did not create. -/

namespace Determined.Searcher
open Determined.Model Determined.Schemes

variable {ι σ : Type}

/-! ### What operations ask for -/

/-- The trials to create. -/
def creates (ops : List (Operation ι)) : List (Create ι) :=
  ops.filterMap fun | .create create => some create | _ => none

section Creates

variable {ops ops' : List (Operation ι)}

@[simp] theorem creates_nil : creates ([] : List (Operation ι)) = [] := rfl
@[simp] theorem creates_create (c : Create ι) : creates (.create c :: ops) = c :: creates ops := rfl
@[simp] theorem creates_runnable (op : Runnable ι) : creates (.runnable op :: ops) = creates ops := rfl
@[simp] theorem creates_close (r : ι) : creates (.close r :: ops) = creates ops := rfl
@[simp] theorem creates_shutdown (b : Bool) : creates (.shutdown b :: ops) = creates ops := rfl
@[simp] theorem creates_append : creates (ops ++ ops') = creates ops ++ creates ops' :=
  List.filterMap_append

end Creates

/-- Operations only change the number of requested trials and the shutdown. -/
theorem EventLog.operationsCreated_spec (ops : List (Operation ι)) : ∀ el : EventLog ι,
    (el.operationsCreated ops).trialsRequested = el.trialsRequested + (creates ops).length ∧
      (el.operationsCreated ops).trialsClosed = el.trialsClosed ∧
      (el.operationsCreated ops).requestIDs = el.requestIDs ∧
      (el.shutdown = true → (el.operationsCreated ops).shutdown = true) := by
  induction ops with
  | nil => simp [operationsCreated]
  | cons op ops ih =>
    intro el
    rw [operationsCreated, List.foldl_cons, ← operationsCreated]
    obtain ⟨hreq, hclosed, hids, hshut⟩ := ih (el.operationCreated op)
    rw [hreq, hclosed, hids]
    refine ⟨?_, ?_, ?_, fun h => hshut ?_⟩
    · cases op <;> simp [operationCreated, add_assoc, add_comm]
    · cases op <;> rfl
    · cases op <;> rfl
    · cases op <;> first | exact h | rfl

/-- Append what a trial is asked to run, unless it is gone, and whether it is asked to close. -/
def TrialState.relay (t : TrialState ι) (asked : List (Runnable ι)) (close : Bool) :
    TrialState ι :=
  { t with ops := if t.gone then t.ops else t.ops ++ asked, closing := t.closing || close }

@[simp] theorem TrialState.relay_trialID (t : TrialState ι) (asked : List (Runnable ι))
    (close : Bool) : (t.relay asked close).trialID = t.trialID := rfl

@[simp] theorem TrialState.relay_exits (t : TrialState ι) (asked : List (Runnable ι))
    (close : Bool) : (t.relay asked close).exits = t.exits := rfl

@[simp] theorem TrialState.relay_closed (t : TrialState ι) (asked : List (Runnable ι))
    (close : Bool) : (t.relay asked close).closed = t.closed := rfl

@[simp] theorem TrialState.relay_nothing (t : TrialState ι) : t.relay [] false = t := by
  simp [TrialState.relay]

variable [DecidableEq ι]

/-- What a trial is to run. -/
def asked (r : ι) (ops : List (Operation ι)) : List (Runnable ι) :=
  ops.filterMap fun | .runnable op => if op.requestID = r then some op else none | _ => none

/-- Whether a trial is to close. -/
def closes (r : ι) (ops : List (Operation ι)) : Bool := decide (.close r ∈ ops)

section Asked

variable {r : ι} {ops ops' : List (Operation ι)}

@[simp] theorem asked_nil : asked r ([] : List (Operation ι)) = [] := rfl
@[simp] theorem asked_create (c : Create ι) : asked r (.create c :: ops) = asked r ops := rfl
@[simp] theorem asked_close (r' : ι) : asked r (.close r' :: ops) = asked r ops := rfl
@[simp] theorem asked_shutdown (b : Bool) : asked r (.shutdown b :: ops) = asked r ops := rfl
@[simp] theorem asked_append : asked r (ops ++ ops') = asked r ops ++ asked r ops' :=
  List.filterMap_append

@[simp] theorem asked_runnable (op : Runnable ι) : asked r (.runnable op :: ops) =
    if op.requestID = r then op :: asked r ops else asked r ops := by
  by_cases h : op.requestID = r <;> simp [asked, h]

@[simp] theorem closes_nil : closes r ([] : List (Operation ι)) = false := rfl
@[simp] theorem closes_append : closes r (ops ++ ops') = (closes r ops || closes r ops') := by
  simp [closes]
@[simp] theorem closes_create (c : Create ι) : closes r (.create c :: ops) = closes r ops := by
  simp [closes]
@[simp] theorem closes_runnable (op : Runnable ι) :
    closes r (.runnable op :: ops) = closes r ops := by
  simp [closes]
@[simp] theorem closes_close (r' : ι) :
    closes r (.close r' :: ops) = (decide (r = r') || closes r ops) := by
  simp [closes]
@[simp] theorem closes_shutdown (b : Bool) : closes r (.shutdown b :: ops) = closes r ops := by
  simp [closes]

end Asked

/-- The trial a message comes from. -/
def Message.sender : Message ι → ι
  | .trialCreated create _ => create.requestID
  | .trialCompletedOperation op _ => op.requestID
  | .trialCompletedWorkload r _ _ => r
  | .trialExitedEarly r _ => r
  | .childStopped r => r

/-- The trial has stopped. -/
def Message.stops : Message ι → Bool
  | .childStopped _ => true
  | _ => false

/-! ### Relaying operations -/

namespace Trials

variable {ts : Trials ι} {r : ι} {ops : List (Operation ι)}

/-- The request ids, in order. -/
def ids (ts : Trials ι) : List ι := ts.requests.map (·.requestID)

theorem processOperations_requests :
    (ts.processOperations ops).requests = ts.requests ++ creates ops := by
  induction ops generalizing ts with
  | nil => simp [processOperations]
  | cons op ops ih =>
    rw [processOperations, List.foldl_cons, ← processOperations, ih]
    cases op <;> simp [processOperation, modify]

/-- What the operations change about a trial. -/
theorem processOperations_trial : (ts.processOperations ops).trial r =
    (ts.trial r).relay (asked r ops) (closes r ops) := by
  induction ops generalizing ts with
  | nil => simp [processOperations, TrialState.relay]
  | cons op ops ih =>
    rw [processOperations, List.foldl_cons, ← processOperations, ih]
    cases op with
    | create c => rw [asked_create, closes_create]; rfl
    | shutdown b => rw [asked_shutdown, closes_shutdown]; rfl
    | runnable op =>
      rw [asked_runnable, closes_runnable]
      rcases eq_or_ne op.requestID r with rfl | hne
      · cases hg : (ts.trial op.requestID).gone <;>
          simp_all [processOperation, modify, TrialState.relay, TrialState.gone]
      · rw [if_neg hne]
        simp [processOperation, modify, hne.symm]
    | close r' =>
      rw [asked_close, closes_close]
      rcases eq_or_ne r r' with rfl | hne
      · simp [processOperation, modify, TrialState.relay, TrialState.gone]
      · simp [processOperation, modify, hne]

@[simp] theorem modify_requests (f : TrialState ι → TrialState ι) :
    (ts.modify r f).requests = ts.requests := rfl

@[simp] theorem modify_trial_same (f : TrialState ι → TrialState ι) :
    (ts.modify r f).trial r = f (ts.trial r) := by
  simp [modify]

theorem modify_trial_ne {r' : ι} (f : TrialState ι → TrialState ι) (h : r' ≠ r) :
    (ts.modify r f).trial r' = ts.trial r' := by
  simp [modify, h]

@[simp] theorem note_requests (msg : Message ι) : (ts.note msg).requests = ts.requests := by
  cases msg <;> rfl

/-- Only the sender's trial changes. -/
theorem note_trial_ne {msg : Message ι} (h : r ≠ msg.sender) :
    (ts.note msg).trial r = ts.trial r := by
  cases msg with
  | trialCompletedWorkload r' msg units => rfl
  | _ =>
    simp only [Message.sender] at h
    simp [note, modify, h]

theorem note_closed (msg : Message ι) : ((ts.note msg).trial r).closed =
    ((ts.trial r).closed || decide (msg = .childStopped r)) := by
  by_cases h : r = msg.sender
  · subst h
    cases msg with
    | trialCompletedOperation op metrics =>
      simp only [note, Message.sender, modify_trial_same]
      split <;> simp
    | _ => simp [note, Message.sender]
  · rw [note_trial_ne h]
    have hne : msg ≠ .childStopped r := by
      rintro rfl
      exact h rfl
    simp [hne]

theorem note_trialID (msg : Message ι) : ((ts.note msg).trial r).trialID = match msg with
    | .trialCreated create id => if r = create.requestID then some id else (ts.trial r).trialID
    | _ => (ts.trial r).trialID := by
  by_cases h : r = msg.sender
  · subst h
    cases msg with
    | trialCompletedOperation op metrics =>
      simp only [note, Message.sender, modify_trial_same]
      split <;> rfl
    | _ => simp [note, Message.sender]
  · rw [note_trial_ne h]
    cases msg with
    | trialCreated create id => exact (if_neg h).symm
    | _ => rfl

/-- New trials get new request ids, and nothing is asked of a trial that was not created. -/
structure Accepts (ts : Trials ι) (ops : List (Operation ι)) : Prop where
  fresh : ((ts.requests ++ creates ops).map (·.requestID)).Nodup
  known : ∀ r, asked r ops ≠ [] ∨ closes r ops = true →
    r ∈ (ts.requests ++ creates ops).map (·.requestID)

end Trials

/-! ### The search method's answer -/

/-- The callback a message ends in. -/
def SearchMethod.answer (m : SearchMethod σ ι) (s : σ) (rand : Rand ι) :
    Message ι → Except Fault (Outcome σ ι)
  | .trialCreated create _ => m.trialCreated s rand create.requestID
  | .trialCompletedOperation op metrics => m.operationCompleted s rand op.requestID op metrics
  | .trialCompletedWorkload .. => ignore s rand
  | .trialExitedEarly r reason => m.trialExitedEarly s rand r reason
  | .childStopped r => m.trialClosed s rand r

namespace Experiment

variable {m : SearchMethod σ ι} {ok : Experiment σ ι → Message ι → Bool} {e f : Experiment σ ι}
  {msg : Message ι}

/-- The searcher knows each trial by its trial id. -/
def Linked (e : Experiment σ ι) : Prop := ∀ r id, (e.trial r).trialID = some id →
  e.searcher.eventLog.requestIDs.lookup id = some r

omit [DecidableEq ι] in
theorem Linked.lookup (hl : e.Linked) {r : ι} (hr : (e.trial r).trialID.isSome = true) :
    e.searcher.eventLog.requestIDs.lookup ((e.trial r).trialID.getD 0) = some r := by
  obtain ⟨id, hid⟩ := Option.isSome_iff_exists.mp hr
  rw [hid]
  exact hl r id hid

/-- What a message that was received has changed: the method answered with `out`. -/
structure Received (m : SearchMethod σ ι) (e : Experiment σ ι) (msg : Message ι)
    (f : Experiment σ ι) (out : Outcome σ ι) : Prop where
  answer : m.answer e.searcher.method e.searcher.rand msg = .ok out
  method : f.searcher.method = out.method
  rand : f.searcher.rand = out.rand
  trials : f.trials = (e.trials.note msg).processOperations out.ops
  requested : f.searcher.eventLog.trialsRequested =
    e.searcher.eventLog.trialsRequested + (creates out.ops).length
  closed : f.searcher.eventLog.trialsClosed =
    e.searcher.eventLog.trialsClosed + if msg.stops then 1 else 0
  shutdown : e.searcher.eventLog.shutdown = true → f.searcher.eventLog.shutdown = true
  shutsDown : msg.stops = true →
    f.searcher.eventLog.trialsRequested = f.searcher.eventLog.trialsClosed →
    f.searcher.eventLog.shutdown = true
  requestIDs : f.searcher.eventLog.requestIDs = match msg with
    | .trialCreated create id => e.searcher.eventLog.requestIDs.insert id create.requestID
    | _ => e.searcher.eventLog.requestIDs

theorem received_of_call (hl : e.Linked) (ha : e.alive msg = true) {ops : List (Operation ι)}
    {searcher : Searcher σ ι} (h : e.call m msg = .ok (ops, searcher)) :
    ∃ out, Received m e msg ⟨searcher, (e.trials.note msg).processOperations ops⟩ out := by
  cases msg with
  | trialCreated create id =>
    obtain ⟨out, hans, heq⟩ := bind_eq_ok.mp h
    cases heq
    obtain ⟨hreq, hclosed, hids, hshut⟩ := EventLog.operationsCreated_spec out.ops
      (e.searcher.eventLog.trialCreated create id)
    exact ⟨out, wrap_eq_ok.mp hans, rfl, rfl, rfl, hreq, hclosed, hshut, by simp [Message.stops], hids⟩
  | trialCompletedOperation op metrics =>
    simp only [alive, Bool.and_eq_true] at ha
    rw [call, Searcher.operationCompleted, hl.lookup ha.1] at h
    obtain ⟨out, hans, heq⟩ := bind_eq_ok.mp h
    cases heq
    obtain ⟨hreq, hclosed, hids, hshut⟩ := EventLog.operationsCreated_spec out.ops
      e.searcher.eventLog
    exact ⟨out, wrap_eq_ok.mp hans, rfl, rfl, rfl, hreq, hclosed, hshut, by simp [Message.stops], hids⟩
  | trialCompletedWorkload r msg units =>
    cases h
    exact ⟨⟨[], e.searcher.method, e.searcher.rand⟩, rfl, rfl, rfl, rfl, rfl, rfl, id,
      by simp [Message.stops], rfl⟩
  | trialExitedEarly r reason =>
    simp only [alive, Bool.and_eq_true] at ha
    rw [call, Searcher.trialExitedEarly, hl.lookup ha.1] at h
    obtain ⟨out, hans, heq⟩ := bind_eq_ok.mp h
    cases heq
    obtain ⟨hreq, hclosed, hids, hshut⟩ := EventLog.operationsCreated_spec out.ops
      (e.searcher.eventLog.trialExitedEarly r reason)
    exact ⟨out, wrap_eq_ok.mp hans, rfl, rfl, rfl, hreq, hclosed, hshut, by simp [Message.stops], hids⟩
  | childStopped r =>
    obtain ⟨out, hans, heq⟩ := bind_eq_ok.mp h
    obtain ⟨hreq, hclosed, hids, hshut⟩ := EventLog.operationsCreated_spec out.ops
      (e.searcher.eventLog.trialClosed r)
    refine ⟨out, ?_⟩
    dsimp only [Searcher.record] at heq
    split at heq
    · cases heq
      refine ⟨wrap_eq_ok.mp hans, rfl, rfl, ?_, hreq, hclosed, fun _ => rfl, fun _ _ => rfl, hids⟩
      rw [Trials.processOperations, Trials.processOperations, List.foldl_append]
      rfl
    · rename_i hne
      cases heq
      exact ⟨wrap_eq_ok.mp hans, rfl, rfl, rfl, hreq, hclosed, hshut, fun _ he => absurd he hne, hids⟩

/-- A step of an experiment: a message that the trial could send was answered. -/
theorem received_of_step (hl : e.Linked) (h : Step m ok e msg f) :
    e.alive msg = true ∧ ok e msg = true ∧ ∃ out, Received m e msg f out := by
  unfold Step receive at h
  split at h
  · rename_i hok
    obtain ⟨ha, hok⟩ := Bool.and_eq_true_iff.mp hok
    refine ⟨ha, hok, ?_⟩
    split at h
    · rename_i hcall
      cases h
      exact received_of_call hl ha hcall
    · cases h
  · cases h

/-! ### Counting the trials -/

/-- The trials that have closed. -/
def closedTrials (e : Experiment σ ι) : Finset ι :=
  e.trials.ids.toFinset.filter fun r => (e.trial r).closed = true

/-- The searcher knows the trials, counts them, and has shut down once all have closed. -/
structure Sound (e : Experiment σ ι) : Prop where
  linked : e.Linked
  nodup : e.trials.ids.Nodup
  unrequested : ∀ r, r ∉ e.trials.ids → e.trial r = newTrialState
  created : ∀ r, (e.trial r).closed = true → (e.trial r).trialID.isSome = true
  requested : e.searcher.eventLog.trialsRequested = e.trials.requests.length
  closed : e.searcher.eventLog.trialsClosed = e.closedTrials.card
  shutdown : (∀ r ∈ e.trials.ids, (e.trial r).closed = true) →
    e.searcher.eventLog.shutdown = true

/-- The trial of a message that can be sent was requested, and has not closed. -/
theorem Sound.sender (h : e.Sound) (ha : e.alive msg = true) :
    msg.sender ∈ e.trials.ids ∧ (e.trial msg.sender).closed = false := by
  have hmem : ∀ r, (e.trial r).trialID.isSome = true → r ∈ e.trials.ids := by
    intro r hr
    by_contra hn
    rw [h.unrequested r hn] at hr
    cases hr
  cases msg with
  | trialCreated create id =>
    simp only [alive, Bool.and_eq_true, decide_eq_true_eq, Option.isNone_iff_eq_none] at ha
    refine ⟨List.mem_map_of_mem ha.1.1, ?_⟩
    cases hc : (e.trial create.requestID).closed with
    | false => exact hc
    | true => simpa [ha.1.2] using h.created _ hc
  | trialCompletedOperation op metrics =>
    simp only [alive, Bool.and_eq_true, Bool.not_eq_true'] at ha
    exact ⟨hmem _ ha.1, ha.2⟩
  | trialCompletedWorkload r msg units =>
    simp only [alive, Bool.and_eq_true, Bool.not_eq_true', decide_eq_true_eq] at ha
    exact ⟨hmem _ (by simp [Message.sender, ha.1]), ha.2⟩
  | trialExitedEarly r reason =>
    simp only [alive, Bool.and_eq_true, Bool.not_eq_true'] at ha
    exact ⟨hmem _ ha.1, ha.2⟩
  | childStopped r =>
    simp only [alive, Bool.and_eq_true, Bool.not_eq_true'] at ha
    exact ⟨hmem _ ha.1, ha.2⟩

theorem Received.ids {out : Outcome σ ι} (h : Received m e msg f out) :
    f.trials.ids = e.trials.ids ++ (creates out.ops).map (·.requestID) := by
  rw [h.trials, Trials.ids, Trials.processOperations_requests, Trials.note_requests, List.map_append,
    Trials.ids]

/-- What a received message leaves of a trial. -/
theorem Received.trial {out : Outcome σ ι} (h : Received m e msg f out) (r : ι) :
    f.trial r = ((e.trials.note msg).trial r).relay (asked r out.ops) (closes r out.ops) := by
  rw [Experiment.trial, h.trials, Trials.processOperations_trial]

/-- A step keeps the counts if the method's answer is acceptable. -/
theorem Sound.step (h : e.Sound) {out : Outcome σ ι} (hr : Received m e msg f out)
    (ha : e.alive msg = true) (hacc : e.trials.Accepts out.ops) : f.Sound := by
  obtain ⟨hmem, hopen⟩ := h.sender ha
  have hclosed : ∀ r, (f.trial r).closed =
      ((e.trial r).closed || decide (msg = .childStopped r)) := by
    intro r
    rw [hr.trial, TrialState.relay_closed, Trials.note_closed, trial]
  have hid : ∀ r, (f.trial r).trialID = ((e.trials.note msg).trial r).trialID := by
    intro r
    rw [hr.trial, TrialState.relay_trialID]
  have hids := hr.ids
  have hunclosed : ∀ r, r ∉ e.trials.ids → (e.trial r).closed = false := by
    intro r hn
    rw [h.unrequested r hn]
    rfl
  have hset : ∀ r, r ∈ f.closedTrials ↔ r ∈ e.closedTrials ∨ msg = .childStopped r := by
    intro r
    simp only [closedTrials, Finset.mem_filter, List.mem_toFinset, hclosed, hids, List.mem_append,
      Bool.or_eq_true, decide_eq_true_eq]
    constructor
    · rintro ⟨hr', hc | rfl⟩
      · refine .inl ⟨?_, hc⟩
        by_contra hn
        rw [hunclosed r hn] at hc
        cases hc
      · exact .inr rfl
    · rintro (⟨hr', hc⟩ | rfl)
      · exact ⟨.inl hr', .inl hc⟩
      · exact ⟨.inl hmem, .inr rfl⟩
  have hcount : f.searcher.eventLog.trialsClosed = f.closedTrials.card := by
    rw [hr.closed, h.closed]
    cases msg with
    | childStopped r =>
      have hins : f.closedTrials = insert r e.closedTrials := by
        ext x
        rw [hset, Finset.mem_insert, or_comm]
        simp [eq_comm]
      rw [hins, Finset.card_insert_of_notMem]
      · rfl
      · rw [closedTrials, Finset.mem_filter, not_and]
        intro _ hc
        rw [Message.sender] at hopen
        rw [hopen] at hc
        cases hc
    | _ =>
      have hsame : f.closedTrials = e.closedTrials := by
        ext x
        simp [hset]
      rw [hsame]
      rfl
  have hrequested : f.searcher.eventLog.trialsRequested = f.trials.requests.length := by
    rw [hr.requested, h.requested, hr.trials, Trials.processOperations_requests, List.length_append,
      Trials.note_requests]
  have hnodup : f.trials.ids.Nodup := by
    rw [hids, Trials.ids, ← List.map_append]
    exact hacc.fresh
  refine ⟨?_, hnodup, ?_, ?_, hrequested, hcount, ?_⟩
  · intro r id hrid
    rw [hid, Trials.note_trialID] at hrid
    rw [hr.requestIDs]
    cases msg with
    | trialCreated create id' =>
      simp only [alive, Bool.and_eq_true, decide_eq_true_eq, Option.isNone_iff_eq_none] at ha
      dsimp only at hrid ⊢
      split at hrid
      · rename_i heq
        cases hrid
        rw [AList.lookup_insert, heq]
      · have hl := h.linked r id hrid
        rw [AList.lookup_insert_ne, hl]
        rintro rfl
        rw [ha.2] at hl
        cases hl
    | _ => exact h.linked r id hrid
  · intro r hn
    rw [hids, List.mem_append, not_or] at hn
    have hne : r ≠ msg.sender := fun heq => hn.1 (heq ▸ hmem)
    have hnot : ¬ (asked r out.ops ≠ [] ∨ closes r out.ops = true) := by
      intro hk
      have := hacc.known r hk
      rw [List.map_append, List.mem_append] at this
      exact this.elim hn.1 hn.2
    rw [not_or, not_not, Bool.not_eq_true] at hnot
    rw [hr.trial, hnot.1, hnot.2, TrialState.relay_nothing, Trials.note_trial_ne hne]
    exact h.unrequested r hn.1
  · intro r hc
    rw [hid, Trials.note_trialID]
    rw [hclosed, Bool.or_eq_true, decide_eq_true_eq] at hc
    rcases hc with hc | rfl
    · have := h.created r hc
      cases msg with
      | trialCreated create id' => dsimp only; split <;> [rfl; exact this]
      | _ => exact this
    · simp only [alive, Bool.and_eq_true] at ha
      exact ha.1
  · intro hall
    cases hm : msg.stops with
    | true =>
      refine hr.shutsDown hm ?_
      have hfull : f.closedTrials = f.trials.ids.toFinset :=
        Finset.filter_true_of_mem (by simpa using hall)
      rw [hrequested, hcount, hfull, List.toFinset_card_of_nodup hnodup, Trials.ids, List.length_map]
    | false =>
      -- the sender has not closed
      have hs := hall msg.sender (by rw [hids]; exact List.mem_append_left _ hmem)
      rw [hclosed, hopen, Bool.false_or, decide_eq_true_eq] at hs
      rw [hs] at hm
      cases hm

/-! ### Starting, and answering -/

/-- A search starts with what the method's initial operations ask for. -/
theorem start_spec {rand : Rand ι} {s : σ} (h : start m rand s = .ok e) :
    ∃ out, m.initialOperations s rand = .ok out ∧ e.searcher.method = out.method ∧
      e.searcher.rand = out.rand ∧
      e.searcher.eventLog = (newEventLog (ι := ι)).operationsCreated out.ops ∧
      e.trials.requests = creates out.ops ∧
      ∀ r, e.trial r = newTrialState.relay (asked r out.ops) (closes r out.ops) := by
  obtain ⟨p, hp, heq⟩ := bind_eq_ok.mp h
  obtain ⟨out, hout, hrec⟩ := bind_eq_ok.mp hp
  cases hrec
  cases heq
  refine ⟨out, wrap_eq_ok.mp hout, rfl, rfl, rfl, ?_, fun r => ?_⟩
  · exact Trials.processOperations_requests.trans (List.nil_append _)
  · exact Trials.processOperations_trial

/-- The start is sound if some trial is asked for, and none twice. -/
theorem Sound.start {rand : Rand ι} {s : σ} (h : Experiment.start m rand s = .ok e)
    {out : Outcome σ ι} (hout : m.initialOperations s rand = .ok out)
    (hacc : (Trials.mk [] fun _ => newTrialState).Accepts out.ops) (hne : creates out.ops ≠ []) :
    e.Sound := by
  obtain ⟨out', hout', -, -, hlog, hreq, htrial⟩ := start_spec h
  cases hout.symm.trans hout'
  obtain ⟨hrequested, hclosed, hids, -⟩ := EventLog.operationsCreated_spec out.ops
    (newEventLog (ι := ι))
  have hopen : ∀ r, (e.trial r).closed = false := fun r => by rw [htrial]; rfl
  have hid : ∀ r, (e.trial r).trialID = none := fun r => by rw [htrial]; rfl
  refine ⟨fun r id hr => ?_, ?_, fun r hr => ?_, fun r hr => ?_, ?_, ?_, fun hall => ?_⟩
  · rw [hid] at hr
    cases hr
  · rw [Trials.ids, hreq]
    exact hacc.fresh
  · rw [htrial]
    have hnot : ¬ (asked r out.ops ≠ [] ∨ closes r out.ops = true) := by
      intro hk
      refine hr ?_
      rw [Trials.ids, hreq]
      exact hacc.known r hk
    rw [not_or, not_not, Bool.not_eq_true] at hnot
    rw [hnot.1, hnot.2, TrialState.relay_nothing]
  · rw [hopen] at hr
    cases hr
  · rw [hlog, hrequested, hreq]
    exact Nat.zero_add _
  · rw [hlog, hclosed]
    have hnone : e.closedTrials = ∅ := by
      simp [closedTrials, hopen]
    rw [hnone]
    rfl
  · obtain ⟨c, hc⟩ := List.exists_mem_of_ne_nil _ hne
    have := hall c.requestID (by rw [Trials.ids, hreq]; exact List.mem_map_of_mem hc)
    rw [hopen] at this
    cases this

/-- A message that a trial can send is handled if the method answers it. -/
theorem step_of_answer (hl : e.Linked) (ha : e.alive msg = true) (hok : ok e msg = true)
    {out : Outcome σ ι} (hans : m.answer e.searcher.method e.searcher.rand msg = .ok out) :
    ∃ f, Step m ok e msg f := by
  have hcall : ∃ p, e.call m msg = .ok p := by
    cases msg with
    | trialCreated create id =>
      exact ⟨_, bind_eq_ok.mpr ⟨out, wrap_eq_ok.mpr hans, rfl⟩⟩
    | trialCompletedOperation op metrics =>
      simp only [alive, Bool.and_eq_true] at ha
      rw [call, Searcher.operationCompleted, hl.lookup ha.1]
      exact ⟨_, bind_eq_ok.mpr ⟨out, wrap_eq_ok.mpr hans, rfl⟩⟩
    | trialCompletedWorkload r msg units => exact ⟨_, rfl⟩
    | trialExitedEarly r reason =>
      simp only [alive, Bool.and_eq_true] at ha
      rw [call, Searcher.trialExitedEarly, hl.lookup ha.1]
      exact ⟨_, bind_eq_ok.mpr ⟨out, wrap_eq_ok.mpr hans, rfl⟩⟩
    | childStopped r =>
      rw [call, Searcher.trialClosed]
      have hans' : wrap "error while handling a trial closed event"
        (m.trialClosed e.searcher.method e.searcher.rand r) = .ok out := wrap_eq_ok.mpr hans
      rw [hans']
      dsimp only [bind, Except.bind]
      split <;> exact ⟨_, rfl⟩
  obtain ⟨⟨ops, searcher⟩, hp⟩ := hcall
  refine ⟨⟨searcher, (e.trials.note msg).processOperations ops⟩, ?_⟩
  rw [Step, receive, if_pos (by rw [ha, hok]; rfl), hp]

end Experiment

end Determined.Searcher
