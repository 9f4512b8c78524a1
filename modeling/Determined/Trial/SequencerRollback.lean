import Determined.Trial.SequencerBatches

/-! What a rollback of the sequencer goes back to, and that completing the same workloads again
    leads from there to where the sequencer was.

    The snapshot is that of the last completed checkpoint: what has happened since are steps,
    validations with batches unsaved, and requests for operations. `completeAgain` is a second run
    over those messages. The invariant `Repeatable` carries its result along the first run. -/

namespace Determined.Trial
open Determined.Model Determined.Searcher Determined.Schemes TrialWorkloadSequencer

variable {ι : Type} {s t u : TrialWorkloadSequencer ι} {tr : List (SequencerEdge ι)}
  {x : SequencerEdge ι} {msg : CompletedMessage} {fut : Option (Option Bool)}

/-! ### The snapshot -/

/-- The checkpoint that a step completes, with the batches it was taken after. -/
def checkpointOf (x : SequencerEdge ι) : Option (ℤ × Checkpoint) :=
  match doneMessage x with
  | some msg =>
    if msg.workload.kind = .checkpointModel then msg.checkpointMetrics.map fun metrics =>
      (x.pre.totalBatchesProcessed, checkpointFromCheckpointMetrics metrics)
    else none
  | none => none

def noteCheckpoint (last : ℤ × Option Checkpoint) (x : SequencerEdge ι) : ℤ × Option Checkpoint :=
  match checkpointOf x with
  | some (batches, checkpoint) => (batches, some checkpoint)
  | none => last

/-- The last completed checkpoint of a run, or the one it starts from. -/
def lastCheckpoint (first : Option Checkpoint) (tr : List (SequencerEdge ι)) :
    ℤ × Option Checkpoint := tr.foldl noteCheckpoint (0, first)

/-- The snapshot is that of the last completed checkpoint, and the state counts from there. -/
structure Saved (last : ℤ × Option Checkpoint) (s : TrialWorkloadSequencer ι) : Prop where
  since : s.latestCheckpointSequencerSnapshot.batchesSinceLastCkpt = 0
  batches : s.latestCheckpointSequencerSnapshot.totalBatchesProcessed = last.1
  checkpoint : s.latestCheckpointSequencerSnapshot.latestCheckpoint = last.2
  total : s.totalBatchesProcessed = last.1 + s.batchesSinceLastCkpt
  latestCheckpoint : s.latestCheckpoint = last.2

theorem Saved.step {last : ℤ × Option Checkpoint} (h : Saved last x.pre) (hmoves : Moves x) :
    Saved (noteCheckpoint last x) x.post := by
  have hquiet : checkpointOf x = none → noteCheckpoint last x = last := fun hnone => by
    simp [noteCheckpoint, hnone]
  cases hmoves with
  | setTrialID trialID he ht =>
    rw [ht, hquiet (by simp [checkpointOf, doneMessage, he])]
    exact ⟨h.1, h.2, h.3, h.4, h.5⟩
  | operationRequested op he ht =>
    rw [ht, hquiet (by simp [checkpointOf, doneMessage, he])]
    exact ⟨h.1, h.2, h.3, h.4, h.5⟩
  | rolledBack he ht =>
    rw [ht, hquiet (by simp [checkpointOf, doneMessage, he])]
    refine ⟨h.since, h.batches, h.checkpoint, ?_, h.checkpoint⟩
    have hsince := h.since
    have hbatches := h.batches
    simp only [rollBackSequencer]
    omega
  | nothing e he hd hc =>
    rw [hquiet (by simp [checkpointOf, hd])]
    refine ⟨hc.snapshot ▸ h.since, hc.snapshot ▸ h.batches, hc.snapshot ▸ h.checkpoint, ?_,
      hc.latestCheckpoint.trans h.latestCheckpoint⟩
    rw [hc.total, hc.sinceLastCkpt]
    exact h.total
  | stepped hd hk hw hc =>
    rw [hquiet (by simp [checkpointOf, hd, hk])]
    refine ⟨hc.snapshot ▸ h.since, hc.snapshot ▸ h.batches, hc.snapshot ▸ h.checkpoint, ?_,
      hc.latestCheckpoint.trans h.latestCheckpoint⟩
    have htotal := h.total
    rw [hc.total, hc.sinceLastCkpt]
    omega
  | validated hd hk hw hc =>
    rw [hquiet (by simp [checkpointOf, hd, hk])]
    have htotal := h.total
    have hlatest := hc.latestCheckpoint.trans h.latestCheckpoint
    have hsnap := hc.snapshot
    rw [← hc.total, ← hc.sinceLastCkpt] at htotal
    split at hsnap
    · rename_i h0
      rw [← hc.sinceLastCkpt] at h0
      exact ⟨hsnap ▸ h0, by rw [hsnap]; omega, hsnap ▸ hlatest, htotal, hlatest⟩
    · exact ⟨hsnap ▸ h.since, hsnap ▸ h.batches, hsnap ▸ h.checkpoint, htotal, hlatest⟩
  | checkpointed hd hk metrics hm hc =>
    have hlast : noteCheckpoint last x =
        (x.pre.totalBatchesProcessed, some (checkpointFromCheckpointMetrics metrics)) := by
      simp [noteCheckpoint, checkpointOf, hd, hk, hm]
    have htotal := hc.total
    have hsince := hc.sinceLastCkpt
    rw [hlast]
    exact ⟨hc.snapshot ▸ hsince, hc.snapshot ▸ htotal, hc.snapshot ▸ hc.latestCheckpoint,
      by dsimp only; omega, hc.latestCheckpoint⟩

theorem Saved.run {last : ℤ × Option Checkpoint} (h : Saved last s)
    (hrun : Run SequencerStep s tr t) : Saved (tr.foldl noteCheckpoint last) t := by
  induction hrun generalizing last with
  | nil => exact h
  | cons hst _ ih => exact ih (h.step (moves_of_step hst))

theorem saved_new (exp : Experiment) (globalBatchSize : ℤ) (first : Option Checkpoint) :
    Saved (0, first) (newTrialWorkloadSequencer ι exp globalBatchSize first) :=
  ⟨rfl, rfl, rfl, rfl, rfl⟩

/-! ### Completing workloads again -/

/-- Complete each workload that is handed out, if it is that of the next message. -/
def completeAgain (s : TrialWorkloadSequencer ι) :
    List (CompletedMessage × Option (Option Bool)) → Except Fault (TrialWorkloadSequencer ι)
  | [] => .ok s
  | (msg, isBestValFuture) :: rest => do
    let w ← s.workload
    if msg.workload = w then
      let r ← s.workloadCompleted msg isBestValFuture
      completeAgain r.1 rest
    else throw (.error "another workload was handed out")

/-- The step takes a snapshot. -/
def takesSnapshot (x : SequencerEdge ι) : Bool :=
  completes .checkpointModel x ||
    completes .computeValidationMetrics x && x.pre.batchesSinceLastCkpt == 0

def noteUnsaved (unsaved : List (CompletedMessage × Option (Option Bool))) (x : SequencerEdge ι) :
    List (CompletedMessage × Option (Option Bool)) :=
  match x.event with
  | .rollBackSequencer => []
  | .workloadCompleted msg fut =>
    if takesSnapshot x then [] else if Fails msg.exitedReason then unsaved
    else unsaved ++ [(msg, fut)]
  | .completeCachedCheckpoints => if takesSnapshot x then [] else unsaved
  | .setTrialID _ | .operationRequested _ => unsaved

/-- The messages of the workloads completed since the last snapshot or rollback of a run, with the
    answers about the best validation. -/
def unsavedMessages (tr : List (SequencerEdge ι)) : List (CompletedMessage × Option (Option Bool)) :=
  tr.foldl noteUnsaved []

def noteFailed (failed : Bool) (x : SequencerEdge ι) : Bool :=
  match x.event with
  | .rollBackSequencer => false
  | .workloadCompleted msg _ => !takesSnapshot x && (failed || decide (Fails msg.exitedReason))
  | .completeCachedCheckpoints => !takesSnapshot x && failed
  | .setTrialID _ | .operationRequested _ => failed

/-- Whether a workload failed since the last snapshot or rollback of a run. -/
def failedSince (tr : List (SequencerEdge ι)) : Bool := tr.foldl noteFailed false

/-- The state, once a workload has failed if one has. -/
def TrialWorkloadSequencer.afterFailure (failed : Bool) (s : TrialWorkloadSequencer ι) :
    TrialWorkloadSequencer ι := { s with exitingEarly := s.exitingEarly || failed }

/-- A message about the same workload, which exited for the same reason and got the same answer. -/
structure SameAnswer (m m' : CompletedMessage × Option (Option Bool)) : Prop where
  workload : m.1.workload = m'.1.workload
  exitedReason : m.1.exitedReason = m'.1.exitedReason
  isBestValidation : m.2 = m'.2

theorem completeAgain_cons {m : CompletedMessage × Option (Option Bool)}
    {ms : List (CompletedMessage × Option (Option Bool))} : completeAgain s (m :: ms) = .ok t ↔
      s.workload = .ok m.1.workload ∧
        ∃ u r, s.workloadCompleted m.1 m.2 = .ok (u, r) ∧ completeAgain u ms = .ok t := by
  constructor
  · intro h
    obtain ⟨w, hw, h⟩ := bind_eq_ok.mp h
    split at h
    · rename_i hsame
      obtain ⟨⟨u, r⟩, hr, h⟩ := bind_eq_ok.mp h
      exact ⟨hsame ▸ hw, u, r, hr, h⟩
    · cases h
  · rintro ⟨hw, u, r, hr, h⟩
    simp [completeAgain, hw, hr, h, bind, Except.bind]

theorem completeAgain_append {ms ms' : List (CompletedMessage × Option (Option Bool))}
    (h : completeAgain s ms = .ok t) (h' : completeAgain t ms' = .ok u) :
    completeAgain s (ms ++ ms') = .ok u := by
  induction ms generalizing s with
  | nil => cases h; exact h'
  | cons m ms ih =>
    obtain ⟨hw, v, r, hr, h⟩ := completeAgain_cons.mp h
    exact completeAgain_cons.mpr ⟨hw, v, r, hr, ih h⟩

/-! ### Operations requested meanwhile -/

/-- A workload that is on offer stays so when an operation is requested. -/
theorem workload_operationRequested {w : Workload} (op : Runnable ι)
    (hidx : s.curOpIdx ≤ s.ops.length) (hw : s.workload = .ok w) :
    (s.operationRequested op).workload = .ok w ∧ (s.operationRequested op).curOp = s.curOp ∧
      (s.operationRequested op).upToDate = false := by
  have hup := upToDate_of_workload hw
  simp only [upToDate, Bool.or_eq_false_iff, beq_eq_false_iff_ne] at hup
  have hlt : s.curOpIdx < s.ops.length := lt_of_le_of_ne hidx (Ne.symm hup.1)
  have hcur : (s.operationRequested op).curOp = s.curOp := List.getElem?_append_left hlt
  have hup' : (s.operationRequested op).upToDate = false := by
    simp only [upToDate, Bool.or_eq_false_iff, beq_eq_false_iff_ne]
    refine ⟨?_, hup.2⟩
    simp only [operationRequested, List.length_append, List.length_singleton]
    omega
  refine ⟨?_, hcur, hup'⟩
  rw [← hw, workload, workload, hup', upToDate_of_workload hw, hcur]
  rfl

theorem admits_of_workload (hw : s.workload = .ok msg.workload) : s.admits msg = .ok ⟨⟩ := by
  simp [admits, upToDate_of_workload hw, hw, wrap, bind, Except.bind, pure, Except.pure]

theorem noteExit_operationRequested (s : TrialWorkloadSequencer ι) (op : Runnable ι)
    (e : Option ExitedReason) :
    (s.operationRequested op).noteExit e = (s.noteExit e).operationRequested op := by
  rw [noteExit_eq, noteExit_eq]
  rfl

theorem runStepCompleted_operationRequested {op : Runnable ι}
    (hcur : (s.operationRequested op).curOp = s.curOp) (msg : CompletedMessage) :
    (s.operationRequested op).runStepCompleted msg =
      ((s.runStepCompleted msg).1.operationRequested op, (s.runStepCompleted msg).2) := by
  unfold runStepCompleted
  rw [hcur]
  split
  · rename_i q length _
    by_cases hdone : length.equalWithinBatch (s.countStep msg).batchesTowardsCurrentOp s.unitContext
    · dsimp only
      rw [if_pos hdone]
      exact if_pos hdone
    · dsimp only
      rw [if_neg hdone]
      exact if_neg hdone
  · rfl

theorem snapshotIfSaved_operationRequested (s : TrialWorkloadSequencer ι) (op : Runnable ι) :
    (s.operationRequested op).snapshotIfSaved = s.snapshotIfSaved.operationRequested op := by
  unfold snapshotIfSaved
  by_cases h : s.batchesSinceLastCkpt = 0
  · rw [if_pos h]
    exact if_pos h
  · rw [if_neg h]
    exact if_neg h

theorem computeValidationMetricsCompleted_operationRequested
    {r : Option (Runnable ι × OpMetrics)} {op : Runnable ι}
    (hcur : (s.operationRequested op).curOp = s.curOp)
    (h : s.computeValidationMetricsCompleted msg fut = .ok (t, r)) :
    (s.operationRequested op).computeValidationMetricsCompleted msg fut =
      .ok (t.operationRequested op, r) := by
  obtain ⟨wanted, hwanted, h⟩ := bind_eq_ok.mp h
  refine bind_eq_ok.mpr ⟨wanted, hwanted, ?_⟩
  rw [hcur]
  split at h <;> cases h <;> rw [← snapshotIfSaved_operationRequested] <;> rfl

/-- The state after a completed workload does not depend on when later operations are requested. -/
theorem workloadCompleted_operationRequested {r : Option (Runnable ι × OpMetrics)} (op : Runnable ι)
    (hidx : s.curOpIdx ≤ s.ops.length) (hw : s.workload = .ok msg.workload)
    (hk : msg.workload.kind ≠ .checkpointModel) (h : s.workloadCompleted msg fut = .ok (t, r)) :
    (s.operationRequested op).workloadCompleted msg fut = .ok (t.operationRequested op, r) := by
  obtain ⟨hw', hcur, -⟩ := workload_operationRequested op hidx hw
  have hcur' : ((s.noteExit msg.exitedReason).operationRequested op).curOp =
      (s.noteExit msg.exitedReason).curOp := by
    rw [← noteExit_operationRequested, noteExit_curOp, hcur, noteExit_curOp]
  obtain ⟨⟨⟩, -, h⟩ := bind_eq_ok.mp h
  refine bind_eq_ok.mpr ⟨⟨⟩, admits_of_workload hw', ?_⟩
  rw [noteExit_operationRequested]
  split at h
  · cases h
    rfl
  · cases h
    rfl
  all_goals
    split at h
    · cases h
      dsimp only
      rw [runStepCompleted_operationRequested hcur']
      rfl
    · rename_i hckpt
      exact absurd hckpt hk
    · exact computeValidationMetricsCompleted_operationRequested hcur' h
    · cases h

/-- An accepted message leaves the index within the operations. -/
theorem TrialWorkloadSequencer.Advances.idx_le {op : Option (Runnable ι)} (h : Advances s t op)
    (hidx : s.curOpIdx ≤ s.ops.length) : t.curOpIdx ≤ t.ops.length := by
  rw [h.ops]
  rcases h.idx with ⟨-, heq⟩ | ⟨hne, hop, heq⟩
  · omega
  · obtain ⟨op, rfl⟩ := Option.ne_none_iff_exists'.mp hne
    have hlt := (List.getElem?_eq_some_iff.mp hop.symm).1
    omega

theorem completeAgain_operationRequested {ms : List (CompletedMessage × Option (Option Bool))}
    (op : Runnable ι) (hidx : s.curOpIdx ≤ s.ops.length)
    (hk : ∀ m ∈ ms, m.1.workload.kind ≠ .checkpointModel) (h : completeAgain s ms = .ok t) :
    completeAgain (s.operationRequested op) ms = .ok (t.operationRequested op) := by
  induction ms generalizing s with
  | nil => cases h; rfl
  | cons m ms ih =>
    obtain ⟨hkm, hk⟩ := List.forall_mem_cons.mp hk
    obtain ⟨hw, v, r, hr, h⟩ := completeAgain_cons.mp h
    have hidx' := (completion_of_workloadCompleted hr).advances.idx_le hidx
    exact completeAgain_cons.mpr ⟨(workload_operationRequested op hidx hw).1, _, r,
      workloadCompleted_operationRequested op hidx hw hkm hr, ih hidx' hk h⟩

/-! ### Other metrics -/

theorem runStepCompleted_metrics (s : TrialWorkloadSequencer ι) {msg msg' : CompletedMessage}
    (h : msg.workload = msg'.workload) : s.runStepCompleted msg = s.runStepCompleted msg' := by
  unfold runStepCompleted countStep
  rw [h]

theorem computeValidationMetricsCompleted_metrics {r : Option (Runnable ι × OpMetrics)}
    (msg' : CompletedMessage) (h : s.computeValidationMetricsCompleted msg fut = .ok (t, r)) :
    ∃ r', s.computeValidationMetricsCompleted msg' fut = .ok (t, r') := by
  obtain ⟨wanted, hwanted, h⟩ := bind_eq_ok.mp h
  unfold computeValidationMetricsCompleted
  rw [hwanted]
  split at h
  · cases h
    exact ⟨_, rfl⟩
  · cases h
    exact ⟨none, rfl⟩

/-- The metrics of a step or a validation have no part in the state. -/
theorem workloadCompleted_sameAnswer {m m' : CompletedMessage × Option (Option Bool)}
    {r : Option (Runnable ι × OpMetrics)} (hsame : SameAnswer m m')
    (hk : m.1.workload.kind ≠ .checkpointModel) (h : s.workloadCompleted m.1 m.2 = .ok (t, r)) :
    ∃ r', s.workloadCompleted m'.1 m'.2 = .ok (t, r') := by
  obtain ⟨⟨⟩, ha, h⟩ := bind_eq_ok.mp h
  have ha' : s.admits m'.1 = .ok ⟨⟩ := by
    rw [← ha]
    simp only [admits, hsame.workload]
  suffices ∃ r', _ from this.imp fun r' hr => bind_eq_ok.mpr ⟨⟨⟩, ha', hr⟩
  rw [← hsame.exitedReason, ← hsame.workload, ← hsame.isBestValidation]
  split at h
  · cases h
    exact ⟨none, rfl⟩
  · cases h
    exact ⟨none, rfl⟩
  all_goals
    split at h
    · cases h
      have hstep := runStepCompleted_metrics (s.noteExit m.1.exitedReason) hsame.workload
      exact ⟨_, by dsimp only; rw [← hstep]; rfl⟩
    · rename_i hckpt
      exact absurd hckpt hk
    · exact computeValidationMetricsCompleted_metrics m'.1 h
    · cases h

theorem completeAgain_sameAnswer {ms ms' : List (CompletedMessage × Option (Option Bool))}
    (hsame : List.Forall₂ SameAnswer ms ms')
    (hk : ∀ m ∈ ms, m.1.workload.kind ≠ .checkpointModel) (h : completeAgain s ms = .ok t) :
    completeAgain s ms' = .ok t := by
  induction hsame generalizing s with
  | nil => exact h
  | cons hm _ ih =>
    obtain ⟨hkm, hk⟩ := List.forall_mem_cons.mp hk
    obtain ⟨hw, v, r, hr, h⟩ := completeAgain_cons.mp h
    obtain ⟨r', hr'⟩ := workloadCompleted_sameAnswer hm hkm hr
    exact completeAgain_cons.mpr ⟨hm.workload ▸ hw, v, r', hr', ih hk h⟩

/-! ### What a rollback goes back to -/

/-- No cached checkpoint, of the state or of its snapshot, was discarded by a failing exit. -/
structure CachedDone (s : TrialWorkloadSequencer ι) : Prop where
  cached : ∀ w m, s.cachedCheckpoints.lookup w = some m → ¬ Fails m.exitedReason
  cachedSnapshot : ∀ w m, s.latestCheckpointSequencerSnapshot.cachedCheckpoints.lookup w = some m →
    ¬ Fails m.exitedReason

theorem cachedDone_new (exp : Experiment) (globalBatchSize : ℤ) (first : Option Checkpoint) :
    CachedDone (newTrialWorkloadSequencer ι exp globalBatchSize first) :=
  ⟨by simp [newTrialWorkloadSequencer], by simp [newTrialWorkloadSequencer]⟩

theorem CachedDone.completion {r : Option (Runnable ι × OpMetrics)} (hs : CachedDone s)
    (h : Completion s msg fut t r) : CachedDone t := by
  have hcached := h.cached hs.cached fun hf _ => hf
  rcases h.snapshot with heq | heq
  · exact ⟨hcached, by rw [heq]; exact hs.cachedSnapshot⟩
  · exact ⟨hcached, by rw [heq]; exact hcached⟩

theorem CachedDone.eraseCached (hs : CachedDone s) (w : Workload) :
    CachedDone { s with cachedCheckpoints := s.cachedCheckpoints.erase w } := by
  refine ⟨fun w' m hm => ?_, hs.cachedSnapshot⟩
  by_cases hw : w' = w
  · subst hw; simp at hm
  · rw [AList.lookup_erase_ne hw] at hm
    exact hs.cached w' m hm

theorem cachedDone_step (s : TrialWorkloadSequencer ι) (e : SequencerEvent ι)
    (t : TrialWorkloadSequencer ι) (hs : CachedDone s) (h : SequencerStep s e t) :
    CachedDone t := by
  obtain ⟨r, h⟩ := h
  cases e with
  | setTrialID _ => cases h; exact ⟨hs.cached, hs.cachedSnapshot⟩
  | operationRequested _ => cases h; exact ⟨hs.cached, hs.cachedSnapshot⟩
  | workloadCompleted msg fut => exact hs.completion (completion_of_workloadCompleted h)
  | completeCachedCheckpoints =>
    rcases completeCachedCheckpoints_cases h with ⟨rfl, -⟩ | ⟨w, m, -, hc⟩
    · exact hs
    · exact (hs.eraseCached w).completion hc
  | rollBackSequencer => cases h; exact ⟨hs.cachedSnapshot, hs.cachedSnapshot⟩

theorem rollBackSequencer_of_snapshot
    (h : s.latestCheckpointSequencerSnapshot = s.toTrialWorkloadSequencerState) :
    s.rollBackSequencer.1 = s := by
  cases s
  cases h
  rfl

theorem rollBackSequencer_idem (s : TrialWorkloadSequencer ι) :
    s.rollBackSequencer.1.rollBackSequencer = s.rollBackSequencer := rfl

/-- A message that takes no snapshot changes nothing that a rollback would restore. -/
theorem TrialWorkloadSequencer.Noted.rollBackSequencer {e : Option ExitedReason} (h : Noted e s t)
    (hsnap : t.latestCheckpointSequencerSnapshot = s.latestCheckpointSequencerSnapshot) :
    t.rollBackSequencer = s.rollBackSequencer := by
  simp only [TrialWorkloadSequencer.rollBackSequencer, h.experimentID, h.trialID,
    h.checkpointPolicy, h.ops, h.minValidationPeriod, h.minCheckpointPeriod, h.unitContext,
    h.schedulingUnit, h.trialIDValid, hsnap]

/-- A rollback and the messages lead to the state. -/
structure Repeats (ms : List (CompletedMessage × Option (Option Bool)))
    (s : TrialWorkloadSequencer ι) : Prop where
  kind : ∀ m ∈ ms, m.1.workload.kind ≠ .checkpointModel
  valid : ms ≠ [] → s.trialIDValid = true
  again : completeAgain s.rollBackSequencer.1 ms = .ok s

theorem repeats_nil
    (h : s.latestCheckpointSequencerSnapshot = s.toTrialWorkloadSequencerState) :
    Repeats [] s :=
  ⟨by simp, by simp, congrArg Except.ok (rollBackSequencer_of_snapshot h)⟩

theorem Repeats.setTrialID {ms : List (CompletedMessage × Option (Option Bool))}
    (h : Repeats ms s) (trialID : ℤ) (hfirst : s.trialIDValid = false) :
    Repeats ms (s.setTrialID trialID) := by
  obtain rfl : ms = [] := by
    by_contra hne
    rw [h.valid hne] at hfirst
    cases hfirst
  have hroll : s.rollBackSequencer.1 = s := Except.ok.inj h.again
  exact ⟨by simp, by simp, congrArg Except.ok (congrArg (TrialWorkloadSequencer.setTrialID · trialID) hroll)⟩

theorem Repeats.operationRequested {ms : List (CompletedMessage × Option (Option Bool))}
    (h : Repeats ms s) (op : Runnable ι)
    (hidx : s.latestCheckpointSequencerSnapshot.curOpIdx ≤ s.ops.length) :
    Repeats ms (s.operationRequested op) :=
  ⟨h.kind, h.valid, completeAgain_operationRequested op hidx h.kind h.again⟩

/-- A workload that leaves the snapshot is repeated after the others. -/
theorem Repeats.snoc {ms : List (CompletedMessage × Option (Option Bool))}
    {r : Option (Runnable ι × OpMetrics)} (h : Repeats ms s)
    (hk : msg.workload.kind ≠ .checkpointModel) (hw : s.workload = .ok msg.workload)
    (hc : s.workloadCompleted msg fut = .ok (t, r))
    (hroll : t.rollBackSequencer = s.rollBackSequencer) (hvalid : t.trialIDValid = s.trialIDValid) :
    Repeats (ms ++ [(msg, fut)]) t where
  kind := by
    intro m hm
    rcases List.mem_append.mp hm with hm | hm
    · exact h.kind m hm
    · rw [List.mem_singleton.mp hm]
      exact hk
  valid := fun _ => hvalid.trans (trialIDValid_of_workload hw)
  again := by
    rw [hroll]
    exact completeAgain_append h.again (completeAgain_cons.mpr ⟨hw, t, r, hc, rfl⟩)

/-- What a run keeps: it can be repeated from its last snapshot up to a failure. -/
structure Repeatable (tr : List (SequencerEdge ι)) (s : TrialWorkloadSequencer ι) : Prop where
  idx : s.curOpIdx ≤ s.ops.length
  snapshot : SnapshotInv s
  cached : CachedDone s
  validatesFirst : ValidatesFirst s
  repeats : ∃ u, Repeats (unsavedMessages tr) u ∧ s = u.afterFailure (failedSince tr)

theorem unsavedMessages_snoc (tr : List (SequencerEdge ι)) (x : SequencerEdge ι) :
    unsavedMessages (tr ++ [x]) = noteUnsaved (unsavedMessages tr) x := by
  simp [unsavedMessages]

theorem failedSince_snoc (tr : List (SequencerEdge ι)) (x : SequencerEdge ι) :
    failedSince (tr ++ [x]) = noteFailed (failedSince tr) x := by
  simp [failedSince]

@[simp] theorem afterFailure_false (s : TrialWorkloadSequencer ι) : s.afterFailure false = s := by
  simp [afterFailure]

theorem idx_le_step (s : TrialWorkloadSequencer ι) (e : SequencerEvent ι)
    (t : TrialWorkloadSequencer ι) (hs : SnapshotInv s) (hidx : s.curOpIdx ≤ s.ops.length)
    (h : SequencerStep s e t) : t.curOpIdx ≤ t.ops.length := by
  obtain ⟨r, h⟩ := h
  cases e with
  | setTrialID _ => cases h; exact hidx
  | operationRequested op =>
    cases h
    simp only [TrialWorkloadSequencer.operationRequested, List.length_append]
    omega
  | workloadCompleted msg fut => exact (completion_of_workloadCompleted h).advances.idx_le hidx
  | completeCachedCheckpoints =>
    rcases completeCachedCheckpoints_cases h with ⟨rfl, -⟩ | ⟨w, m, -, hc⟩
    · exact hidx
    · have hle := hc.advances.idx_le
      exact hle hidx
  | rollBackSequencer => cases h; exact hs.idx.trans hidx

theorem takesSnapshot_iff : takesSnapshot (⟨s, .workloadCompleted msg fut, t⟩ : SequencerEdge ι) ↔
    ¬ Fails msg.exitedReason ∧ (msg.workload.kind = .checkpointModel ∨
      msg.workload.kind = .computeValidationMetrics ∧ s.batchesSinceLastCkpt = 0) := by
  by_cases hf : Fails msg.exitedReason <;> simp [takesSnapshot, completes, doneMessage, hf]

/-- A message that takes a snapshot leaves the state that a rollback goes back to. -/
theorem snapshot_of_takesSnapshot {r : Option (Runnable ι × OpMetrics)}
    (h : s.workloadCompleted msg fut = .ok (t, r))
    (hsnap : takesSnapshot (⟨s, .workloadCompleted msg fut, t⟩ : SequencerEdge ι) = true) :
    t.latestCheckpointSequencerSnapshot = t.toTrialWorkloadSequencerState := by
  obtain ⟨hdone, hkind⟩ := takesSnapshot_iff.mp hsnap
  cases (completion_of_workloadCompleted h).effect with
  | failed hfails => exact absurd hfails hdone
  | stepped _ hk => simp [hk] at hkind
  | validated _ hk _ hc =>
    have h0 : s.batchesSinceLastCkpt = 0 := by simpa [hk] using hkind
    exact hc.snapshot.trans (if_pos h0)
  | checkpointed _ _ _ _ hc => exact hc.snapshot

/-- A workload that takes no snapshot is repeated after the others. -/
theorem Repeats.completed {ms : List (CompletedMessage × Option (Option Bool))}
    {r : Option (Runnable ι × OpMetrics)} (hs : Repeats ms s)
    (h : s.workloadCompleted msg fut = .ok (t, r)) (hdone : ¬ Fails msg.exitedReason)
    (hsnap : ¬ takesSnapshot (⟨s, .workloadCompleted msg fut, t⟩ : SequencerEdge ι) = true) :
    Repeats (ms ++ [(msg, fut)]) t := by
  have hkind : ¬ (msg.workload.kind = .checkpointModel ∨
      msg.workload.kind = .computeValidationMetrics ∧ s.batchesSinceLastCkpt = 0) :=
    fun hk => hsnap (takesSnapshot_iff.mpr ⟨hdone, hk⟩)
  cases (completion_of_workloadCompleted h).effect with
  | failed hfails => exact absurd hfails hdone
  | stepped _ hk hw hc =>
    exact hs.snoc (by simp [hk]) hw h (hc.rollBackSequencer hc.snapshot) hc.trialIDValid
  | validated _ hk hw hc =>
    have h0 : s.batchesSinceLastCkpt ≠ 0 := by simpa [hk] using hkind
    exact hs.snoc (by simp [hk]) hw h (hc.rollBackSequencer (hc.snapshot.trans (if_neg h0)))
      hc.trialIDValid
  | checkpointed _ hk => simp [hk] at hkind

theorem noteExit_of_fails {e : Option ExitedReason} (h : Fails e) (s : TrialWorkloadSequencer ι) :
    s.noteExit e = s.afterFailure true := by
  rcases e with _ | _ | _ | _ | _ <;> simp_all [Fails, noteExit, afterFailure]

/-- A message keeps the run repeatable, whether or not it takes a snapshot or fails. -/
theorem repeats_workloadCompleted {ms : List (CompletedMessage × Option (Option Bool))}
    {failed : Bool} {r : Option (Runnable ι × OpMetrics)} (hfirst : ValidatesFirst s)
    (h : s.workloadCompleted msg fut = .ok (t, r))
    (hs : ∃ u, Repeats ms u ∧ s = u.afterFailure failed) :
    ∃ u, Repeats (noteUnsaved ms ⟨s, .workloadCompleted msg fut, t⟩) u ∧
      t = u.afterFailure (noteFailed failed ⟨s, .workloadCompleted msg fut, t⟩) := by
  obtain ⟨u, hu, hsu⟩ := hs
  by_cases hsnap : takesSnapshot (⟨s, .workloadCompleted msg fut, t⟩ : SequencerEdge ι) = true
  · refine ⟨t, ?_, ?_⟩
    · simp only [noteUnsaved, hsnap, if_true]
      exact repeats_nil (snapshot_of_takesSnapshot h hsnap)
    · simp [noteFailed, hsnap]
  · by_cases hf : Fails msg.exitedReason
    · have hfailed : noteFailed failed ⟨s, .workloadCompleted msg fut, t⟩ = true := by
        simp [noteFailed, hsnap, hf]
      refine ⟨u, by simpa [noteUnsaved, hsnap, hf] using hu, ?_⟩
      rw [hfailed]
      cases completion_of_workloadCompleted h with
      | failed =>
        rw [noteExit_of_fails hf, hsu]
        simp [afterFailure]
      | runStep hdone => exact absurd hf hdone
      | checkpoint hdone => exact absurd hf hdone
      | validation hdone => exact absurd hf hdone
    · -- after a failure only a checkpoint would be on offer
      cases failed with
      | false =>
        rw [afterFailure_false] at hsu
        subst hsu
        refine ⟨t, by simpa [noteUnsaved, hsnap, hf] using hu.completed h hf hsnap, ?_⟩
        simp [noteFailed, hsnap, hf]
      | true =>
        have hexit : s.exitingEarly = true := by rw [hsu]; simp [afterFailure]
        have hno : ∀ w, s.workload = .ok w → w.kind = .checkpointModel := fun w hw => by
          rw [(workload_of_exitingEarly hfirst hexit hw).2]
          rfl
        refine absurd (takesSnapshot_iff.mpr ⟨hf, .inl ?_⟩) hsnap
        cases completion_of_workloadCompleted h with
        | failed hfails => exact absurd hfails hf
        | runStep _ _ hw => exact hno _ hw
        | checkpoint _ hk => exact hk
        | validation _ _ hw => exact hno _ hw

/-- The trial gets its id once. -/
def SetsIDOnce (x : SequencerEdge ι) : Prop :=
  match x.event with
  | .setTrialID _ => x.pre.trialIDValid = false
  | _ => True

instance : DecidablePred (SetsIDOnce (ι := ι))
  | ⟨pre, .setTrialID _, _⟩ => inferInstanceAs (Decidable (pre.trialIDValid = false))
  | ⟨_, .operationRequested _, _⟩ | ⟨_, .workloadCompleted _ _, _⟩
  | ⟨_, .completeCachedCheckpoints, _⟩ | ⟨_, .rollBackSequencer, _⟩ =>
    inferInstanceAs (Decidable True)

/-- Step lemma: a run stays repeatable. -/
theorem Repeatable.step {e : SequencerEvent ι} (h : Repeatable tr s) (hst : SequencerStep s e t)
    (hid : SetsIDOnce ⟨s, e, t⟩) : Repeatable (tr ++ [⟨s, e, t⟩]) t := by
  refine ⟨idx_le_step s e t h.snapshot h.idx hst, snapshotInv_step s e t h.snapshot hst,
    cachedDone_step s e t h.cached hst, validatesFirst_step s e t h.validatesFirst hst, ?_⟩
  rw [unsavedMessages_snoc, failedSince_snoc]
  obtain ⟨r, hst⟩ := hst
  obtain ⟨u, hu, hsu⟩ := h.repeats
  cases e with
  | setTrialID trialID =>
    cases hst
    have hfirst : u.trialIDValid = false := by
      have hfirst : s.trialIDValid = false := hid
      rw [hsu] at hfirst
      exact hfirst
    exact ⟨_, hu.setTrialID trialID hfirst, congrArg (setTrialID · trialID) hsu⟩
  | operationRequested op =>
    cases hst
    have hidx : u.latestCheckpointSequencerSnapshot.curOpIdx ≤ u.ops.length := by
      have hidx := h.snapshot.idx.trans h.idx
      rw [hsu] at hidx
      exact hidx
    exact ⟨_, hu.operationRequested op hidx, congrArg (operationRequested · op) hsu⟩
  | rollBackSequencer =>
    cases hst
    exact ⟨_, repeats_nil rfl, (afterFailure_false _).symm⟩
  | workloadCompleted msg fut => exact repeats_workloadCompleted h.validatesFirst hst h.repeats
  | completeCachedCheckpoints =>
    rcases completeCachedCheckpoints_spec hst with ⟨hnone, rfl⟩ | ⟨w, m, hm, hw, hc⟩
    · have hquiet : takesSnapshot (⟨t, .completeCachedCheckpoints, t⟩ : SequencerEdge ι) = false := by
        simp [takesSnapshot, completes, doneMessage, hnone]
      simp only [noteUnsaved, noteFailed, hquiet, Bool.false_eq_true, if_false, Bool.not_false,
        Bool.true_and]
      exact h.repeats
    · -- what is cached is a successful checkpoint
      have hdone := h.cached.cached w m hw
      have hk := h.snapshot.cached w m hw
      have hsnap : takesSnapshot (⟨s, .completeCachedCheckpoints, t⟩ : SequencerEdge ι) = true := by
        simp [takesSnapshot, completes, doneMessage, hm, hdone, hk]
      simp only [noteUnsaved, noteFailed, hsnap, if_true, Bool.not_true, Bool.false_and]
      refine ⟨t, repeats_nil ?_, (afterFailure_false t).symm⟩
      cases hc with
      | failed hfails => exact absurd hfails hdone
      | runStep _ hk' => simp [hk] at hk'
      | validation _ hk' => simp [hk] at hk'
      | checkpoint _ _ hc => exact (checkpointModelCompleted_spec hc).2.1

/-- Run lemma: every run of a sequencer that gets its id once is repeatable. -/
theorem Repeatable.run {tr' : List (SequencerEdge ι)} (h : Repeatable tr s)
    (hrun : Run SequencerStep s tr' t) (hid : ∀ x ∈ tr', SetsIDOnce x) :
    Repeatable (tr ++ tr') t := by
  induction hrun generalizing tr with
  | nil => simpa using h
  | @cons s u t e tr' hst _ ih =>
    obtain ⟨hx, hid⟩ := List.forall_mem_cons.mp hid
    simpa using ih (h.step hst hx) hid

theorem repeatable_new (exp : Experiment) (globalBatchSize : ℤ) (first : Option Checkpoint) :
    Repeatable [] (newTrialWorkloadSequencer ι exp globalBatchSize first) :=
  ⟨le_rfl, snapshotInv_new _ _ _, cachedDone_new _ _ _, validatesFirst_new _ _ _,
    _, repeats_nil rfl, (afterFailure_false _).symm⟩

/-- CORRECT: in every reachable state the snapshot is that of the last completed checkpoint and not
    ahead of the state, and a rollback is idempotent. A trial that gets its id once can complete the
    workloads since its last snapshot again after a rollback, with other metrics but the same
    answers, and is then in the state it was in, before it failed if it did. -/
theorem rollback_repeats (exp : Experiment) (globalBatchSize : ℤ) (first : Option Checkpoint)
    {tr : List (SequencerEdge ι)} {t : TrialWorkloadSequencer ι}
    (h : Run SequencerStep (newTrialWorkloadSequencer ι exp globalBatchSize first) tr t) :
    t.latestCheckpointSequencerSnapshot.batchesSinceLastCkpt = 0 ∧
    (t.latestCheckpointSequencerSnapshot.totalBatchesProcessed,
      t.latestCheckpointSequencerSnapshot.latestCheckpoint) = lastCheckpoint first tr ∧
    t.latestCheckpointSequencerSnapshot.curOpIdx ≤ t.curOpIdx ∧
    t.rollBackSequencer.1.rollBackSequencer = t.rollBackSequencer ∧
    ((∀ x ∈ tr, SetsIDOnce x) → ∀ ms, List.Forall₂ SameAnswer (unsavedMessages tr) ms →
      ∃ u, completeAgain t.rollBackSequencer.1 ms = .ok u ∧
        t = u.afterFailure (failedSince tr)) := by
  have hsaved : Saved (lastCheckpoint first tr) t := (saved_new exp globalBatchSize first).run h
  obtain ⟨-, hsnapshot⟩ := h.invariant snapshotInv_step (snapshotInv_new _ _ _)
  refine ⟨hsaved.since, Prod.ext hsaved.batches hsaved.checkpoint, hsnapshot.idx,
    rollBackSequencer_idem t, fun hid ms hsame => ?_⟩
  obtain ⟨u, hu, htu⟩ := ((repeatable_new exp globalBatchSize first).run h hid).repeats
  have hroll : t.rollBackSequencer.1 = u.rollBackSequencer.1 := by rw [htu]; rfl
  exact ⟨u, hroll ▸ completeAgain_sameAnswer hsame hu.kind hu.again, htu⟩

/-- A step and a validation without a checkpoint, completed again. -/
theorem rollback_repeats_hundred : ∃ tr t,
    Run SequencerStep (newTrialWorkloadSequencer ℕ (periodicExperiment 100) 64 none) tr t ∧
      tr.map (·.event) = trainThenValidate ++ [stepDone, validationDone] ∧
      (unsavedMessages tr).length = 2 ∧
      completeAgain t.rollBackSequencer.1 (unsavedMessages tr) = .ok t := by
  obtain ⟨tr, t, hrun, hev, hdone⟩ := Run.exists_of_exec sequencerStep_of_next
    (fun r => decide ((∀ x ∈ r.1, SetsIDOnce x) ∧ (unsavedMessages r.1).length = 2 ∧
      failedSince r.1 = false))
    (show (exec sequencerNext (newTrialWorkloadSequencer ℕ (periodicExperiment 100) 64 none)
      (trainThenValidate ++ [stepDone, validationDone])).map _ = some true by decide)
  obtain ⟨hid, hlen, hfailed⟩ := of_decide_eq_true hdone
  refine ⟨tr, t, hrun, hev, hlen, ?_⟩
  obtain ⟨-, -, -, -, hrepeats⟩ := rollback_repeats _ _ _ hrun
  obtain ⟨u, hu, htu⟩ := hrepeats hid (unsavedMessages tr)
    (List.forall₂_same.mpr fun _ _ => ⟨rfl, rfl, rfl⟩)
  rw [hfailed, afterFailure_false] at htu
  rw [htu] at hu ⊢
  exact hu

end Determined.Trial
