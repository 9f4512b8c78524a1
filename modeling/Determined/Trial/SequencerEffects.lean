import Determined.Trial.SequencerRuns

/-! What an accepted completion message does to the counters of the sequencer, one structure for
    each kind of workload, and what a step of a run does. -/

namespace Determined.Trial
open Determined.Model Determined.Searcher Determined.Schemes

namespace TrialWorkloadSequencer

variable {ι : Type} {s t : TrialWorkloadSequencer ι} {msg : CompletedMessage}
  {fut : Option (Option Bool)} {r : Option (Runnable ι × OpMetrics)} {w : Workload}

/-! ### The workload handed out -/

/-- A `RUN_STEP` is handed out for a `Train`, when nothing else is due. -/
structure HandsOutStep (s : TrialWorkloadSequencer ι) (q : ι) (length : Length) : Prop where
  curOp : s.curOp = some (.train q length)
  needInitialValidation : s.needInitialValidation = false
  postGracefulStopCheckpointNeeded : s.postGracefulStopCheckpointNeeded = false
  minValidationNeeded : s.minValidationNeeded = false
  minCheckpointNeeded : s.minCheckpointNeeded = false

theorem upToDate_of_workload (h : s.workload = .ok w) : s.upToDate = false := by
  by_contra hup
  rw [Bool.not_eq_false] at hup
  simp [workload, hup] at h

theorem trialIDValid_of_workload (h : s.workload = .ok w) : s.trialIDValid = true := by
  by_contra hid
  rw [Bool.not_eq_true] at hid
  simp [workload, upToDate_of_workload h, hid] at h

/-- What is handed out is a validation, a checkpoint or a step. -/
theorem workload_cases (h : s.workload = .ok w) : w = s.validate ∨ w = s.checkpoint ∨
    ∃ q length, HandsOutStep s q length ∧ w = s.train (s.batchesThisStep length) := by
  have hup := upToDate_of_workload h
  have hid := trialIDValid_of_workload h
  rw [workload, if_neg (by simp [hup]), if_neg (by simp [hid])] at h
  by_cases hinit : s.needInitialValidation = true
  · rw [if_pos hinit] at h
    exact .inl (Except.ok.inj h).symm
  rw [if_neg hinit] at h
  by_cases hgraceful : s.postGracefulStopCheckpointNeeded = true
  · rw [if_pos hgraceful] at h
    exact .inr (.inl (Except.ok.inj h).symm)
  rw [if_neg hgraceful] at h
  by_cases hpost : s.postValidationCheckpointNeeded = true
  · rw [if_pos hpost] at h
    exact .inr (.inl (Except.ok.inj h).symm)
  rw [if_neg hpost] at h
  by_cases hval : s.minValidationNeeded = true
  · rw [if_pos hval] at h
    exact .inl (Except.ok.inj h).symm
  rw [if_neg hval] at h
  by_cases hckpt : s.minCheckpointNeeded = true
  · rw [if_pos hckpt] at h
    exact .inr (.inl (Except.ok.inj h).symm)
  rw [if_neg hckpt] at h
  cases hop : s.curOp with
  | none => rw [hop] at h; cases h
  | some op =>
    rw [hop] at h
    cases op with
    | checkpoint q => exact .inr (.inl (Except.ok.inj h).symm)
    | train q length =>
      refine .inr (.inr ⟨q, length, ⟨hop, ?_, ?_, ?_, ?_⟩, (Except.ok.inj h).symm⟩)
      · simpa using hinit
      · simpa using hgraceful
      · simpa using hval
      · simpa using hckpt
    | validate q =>
      dsimp only at h
      split at h
      · exact .inr (.inl (Except.ok.inj h).symm)
      · exact .inl (Except.ok.inj h).symm

theorem workload_runStep (h : s.workload = .ok w) (hk : w.kind = .runStep) :
    ∃ q length, HandsOutStep s q length ∧ w = s.train (s.batchesThisStep length) := by
  rcases workload_cases h with rfl | rfl | hstep
  · cases hk
  · cases hk
  · exact hstep

theorem workload_totalBatchesProcessed (h : s.workload = .ok w) :
    w.totalBatchesProcessed = s.totalBatchesProcessed := by
  rcases workload_cases h with rfl | rfl | ⟨q, length, -, rfl⟩ <;> rfl

/-! ### The effect of a message -/

/-- Whether so many batches complete the current `Train`. -/
def completesTrain (s : TrialWorkloadSequencer ι) (n : ℤ) : Bool :=
  match s.curOp with
  | some (.train _ length) =>
    length.equalWithinBatch (s.batchesTowardsCurrentOp + n) s.unitContext
  | _ => false

/-- The reasons for which a workload exits at somebody's request. -/
def stopsGracefully : Option ExitedReason → Bool
  | some .userCanceled | some .invalidHP => true
  | _ => false

/-- What every accepted message leaves as it is, and how it notes an exit. -/
structure Noted (e : Option ExitedReason) (s t : TrialWorkloadSequencer ι) : Prop where
  experimentID : t.experimentID = s.experimentID
  trialID : t.trialID = s.trialID
  checkpointPolicy : t.checkpointPolicy = s.checkpointPolicy
  ops : t.ops = s.ops
  minValidationPeriod : t.minValidationPeriod = s.minValidationPeriod
  minCheckpointPeriod : t.minCheckpointPeriod = s.minCheckpointPeriod
  unitContext : t.unitContext = s.unitContext
  schedulingUnit : t.schedulingUnit = s.schedulingUnit
  trialIDValid : t.trialIDValid = s.trialIDValid
  exitingEarly : t.exitingEarly = (s.exitingEarly || e.isSome)
  gracefulStop : t.gracefulStop = (s.gracefulStop || stopsGracefully e)

/-- The state after a workload whose results are discarded. -/
structure Discarded (e : Option ExitedReason) (s t : TrialWorkloadSequencer ι) : Prop
    extends Noted e s t where
  total : t.totalBatchesProcessed = s.totalBatchesProcessed
  sinceLastVal : t.batchesSinceLastVal = s.batchesSinceLastVal
  sinceLastCkpt : t.batchesSinceLastCkpt = s.batchesSinceLastCkpt
  curOpIdx : t.curOpIdx = s.curOpIdx
  towards : t.batchesTowardsCurrentOp = s.batchesTowardsCurrentOp
  needInitialValidation : t.needInitialValidation = s.needInitialValidation
  latestCheckpoint : t.latestCheckpoint = s.latestCheckpoint
  snapshot : t.latestCheckpointSequencerSnapshot = s.latestCheckpointSequencerSnapshot

/-- The state after a step of `n` batches. -/
structure StepCounted (e : Option ExitedReason) (n : ℤ) (s t : TrialWorkloadSequencer ι) : Prop
    extends Noted e s t where
  total : t.totalBatchesProcessed = s.totalBatchesProcessed + n
  sinceLastVal : t.batchesSinceLastVal = s.batchesSinceLastVal + n
  sinceLastCkpt : t.batchesSinceLastCkpt = s.batchesSinceLastCkpt + n
  curOp : if s.completesTrain n
    then t.curOpIdx = s.curOpIdx + 1 ∧ t.batchesTowardsCurrentOp = 0
    else t.curOpIdx = s.curOpIdx ∧ t.batchesTowardsCurrentOp = s.batchesTowardsCurrentOp + n
  needInitialValidation : t.needInitialValidation = s.needInitialValidation
  latestCheckpoint : t.latestCheckpoint = s.latestCheckpoint
  snapshot : t.latestCheckpointSequencerSnapshot = s.latestCheckpointSequencerSnapshot

/-- The state after a validation. -/
structure ValidationCounted (e : Option ExitedReason) (s t : TrialWorkloadSequencer ι) : Prop
    extends Noted e s t where
  total : t.totalBatchesProcessed = s.totalBatchesProcessed
  sinceLastVal : t.batchesSinceLastVal = 0
  sinceLastCkpt : t.batchesSinceLastCkpt = s.batchesSinceLastCkpt
  curOpIdx : t.curOpIdx = s.curOpIdx + if s.atValidate then 1 else 0
  towards : t.batchesTowardsCurrentOp = s.batchesTowardsCurrentOp
  needInitialValidation : t.needInitialValidation = false
  latestCheckpoint : t.latestCheckpoint = s.latestCheckpoint
  snapshot : t.latestCheckpointSequencerSnapshot =
    if s.batchesSinceLastCkpt = 0 then t.toTrialWorkloadSequencerState
    else s.latestCheckpointSequencerSnapshot

/-- The state after a checkpoint. -/
structure CheckpointCounted (e : Option ExitedReason) (metrics : CheckpointMetrics)
    (s t : TrialWorkloadSequencer ι) : Prop extends Noted e s t where
  total : t.totalBatchesProcessed = s.totalBatchesProcessed
  sinceLastVal : t.batchesSinceLastVal = s.batchesSinceLastVal
  sinceLastCkpt : t.batchesSinceLastCkpt = 0
  curOpIdx : t.curOpIdx = s.curOpIdx ∨
    (∃ q, s.curOp = some (.checkpoint q)) ∧ t.curOpIdx = s.curOpIdx + 1
  towards : t.batchesTowardsCurrentOp = s.batchesTowardsCurrentOp
  needInitialValidation : t.needInitialValidation = s.needInitialValidation
  latestCheckpoint : t.latestCheckpoint = some (checkpointFromCheckpointMetrics metrics)
  snapshot : t.latestCheckpointSequencerSnapshot = t.toTrialWorkloadSequencerState

/-- What an accepted message does to the counters, by kind of workload. -/
inductive Effect (s : TrialWorkloadSequencer ι) (msg : CompletedMessage)
    (t : TrialWorkloadSequencer ι) : Prop
  | failed (hf : Fails msg.exitedReason) (hc : Discarded msg.exitedReason s t)
  | stepped (hf : ¬ Fails msg.exitedReason) (hk : msg.workload.kind = .runStep)
      (hw : s.workload = .ok msg.workload)
      (hc : StepCounted msg.exitedReason msg.workload.numBatches s t)
  | validated (hf : ¬ Fails msg.exitedReason) (hk : msg.workload.kind = .computeValidationMetrics)
      (hw : s.workload = .ok msg.workload) (hc : ValidationCounted msg.exitedReason s t)
  | checkpointed (hf : ¬ Fails msg.exitedReason) (hk : msg.workload.kind = .checkpointModel)
      (metrics : CheckpointMetrics) (hm : msg.checkpointMetrics = some metrics)
      (hc : CheckpointCounted msg.exitedReason metrics s t)

/-- Noting an exit changes the flags only. -/
theorem noteExit_eq (s : TrialWorkloadSequencer ι) (e : Option ExitedReason) :
    s.noteExit e = { s with
      exitingEarly := s.exitingEarly || e.isSome
      gracefulStop := s.gracefulStop || stopsGracefully e } := by
  rcases e with _ | _ | _ | _ | _ <;> simp [noteExit, stopsGracefully]

section Handlers

variable (e : Option ExitedReason)

theorem discarded_noteExit : Discarded e s (s.noteExit e) := by
  rw [noteExit_eq]
  exact ⟨⟨rfl, rfl, rfl, rfl, rfl, rfl, rfl, rfl, rfl, rfl, rfl⟩, rfl, rfl, rfl, rfl, rfl, rfl, rfl,
    rfl⟩

theorem stepCounted (msg : CompletedMessage) :
    StepCounted e msg.workload.numBatches s ((s.noteExit e).runStepCompleted msg).1 := by
  rw [noteExit_eq]
  generalize hx : (s.exitingEarly || e.isSome) = x
  generalize hg : (s.gracefulStop || stopsGracefully e) = g
  have hop : ({ s with exitingEarly := x, gracefulStop := g } : TrialWorkloadSequencer ι).curOp =
    s.curOp := rfl
  have hplain : s.completesTrain msg.workload.numBatches = false →
      StepCounted e msg.workload.numBatches s
        ({ s with exitingEarly := x, gracefulStop := g }.countStep msg) := fun hno =>
    ⟨⟨rfl, rfl, rfl, rfl, rfl, rfl, rfl, rfl, rfl, hx.symm, hg.symm⟩, rfl, rfl, rfl, by simp [hno, countStep], rfl,
      rfl, rfl⟩
  unfold runStepCompleted
  rw [hop]
  cases hcur : s.curOp with
  | none => exact hplain (by simp [completesTrain, hcur])
  | some op =>
    cases op with
    | validate q => exact hplain (by simp [completesTrain, hcur])
    | checkpoint q => exact hplain (by simp [completesTrain, hcur])
    | train q length =>
      dsimp only
      split
      · rename_i hdone
        refine ⟨⟨rfl, rfl, rfl, rfl, rfl, rfl, rfl, rfl, rfl, hx.symm, hg.symm⟩, rfl, rfl, rfl, ?_, rfl, rfl, rfl⟩
        have hyes : s.completesTrain msg.workload.numBatches = true := by
          simpa [completesTrain, hcur, countStep] using hdone
        rw [if_pos hyes]
        exact ⟨rfl, rfl⟩
      · rename_i hpart
        exact hplain (by simpa [completesTrain, hcur, countStep] using hpart)

theorem Noted.snapshotIfSaved {e : Option ExitedReason} (h : Noted e s t) :
    Noted e s t.snapshotIfSaved := by
  unfold TrialWorkloadSequencer.snapshotIfSaved
  split
  · exact ⟨h.1, h.2, h.3, h.4, h.5, h.6, h.7, h.8, h.9, h.10, h.11⟩
  · exact h

theorem validationCounted
    (h : (s.noteExit e).computeValidationMetricsCompleted msg fut = .ok (t, r)) :
    ValidationCounted e s t := by
  rw [noteExit_eq] at h
  generalize hx : (s.exitingEarly || e.isSome) = x at h
  generalize hg : (s.gracefulStop || stopsGracefully e) = g at h
  obtain ⟨wanted, -, h⟩ := bind_eq_ok.mp h
  have hop : ({ s with exitingEarly := x, gracefulStop := g } : TrialWorkloadSequencer ι).curOp =
    s.curOp := rfl
  rw [hop] at h
  have hstays : s.atValidate = false → ValidationCounted e s
      ({ s with exitingEarly := x, gracefulStop := g }.countValidation wanted).snapshotIfSaved := by
    intro hno
    refine ⟨Noted.snapshotIfSaved ⟨rfl, rfl, rfl, rfl, rfl, rfl, rfl, rfl, rfl, hx.symm, hg.symm⟩,
      ?_, ?_, ?_, ?_, ?_, ?_, ?_, ?_⟩ <;> simp [countValidation, hno]
  split at h
  · rename_i q hcur
    cases h
    have hat : s.atValidate = true := atValidate_iff.mpr ⟨q, hcur⟩
    refine ⟨Noted.snapshotIfSaved ⟨rfl, rfl, rfl, rfl, rfl, rfl, rfl, rfl, rfl, hx.symm, hg.symm⟩,
      ?_, ?_, ?_, ?_, ?_, ?_, ?_, ?_⟩ <;> simp [countValidation, nextOp, hat]
  · rename_i hcur
    cases h
    refine hstays (Bool.eq_false_iff.mpr fun hat => ?_)
    obtain ⟨q, hq⟩ := atValidate_iff.mp hat
    exact hcur q hq

theorem checkpointCounted (h : (s.noteExit e).checkpointModelCompleted msg = .ok (t, r)) :
    ∃ metrics, msg.checkpointMetrics = some metrics ∧ CheckpointCounted e metrics s t := by
  rw [noteExit_eq] at h
  generalize hx : (s.exitingEarly || e.isSome) = x at h
  generalize hg : (s.gracefulStop || stopsGracefully e) = g at h
  have hop : ({ s with exitingEarly := x, gracefulStop := g } : TrialWorkloadSequencer ι).curOp =
    s.curOp := rfl
  unfold checkpointModelCompleted at h
  split at h
  · cases h
  · rename_i metrics hm
    refine ⟨metrics, hm, ?_⟩
    split at h
    · cases h
      exact ⟨⟨rfl, rfl, rfl, rfl, rfl, rfl, rfl, rfl, rfl, hx.symm, hg.symm⟩, rfl, rfl, rfl, .inl rfl, rfl, rfl, rfl,
        rfl⟩
    · rw [hop] at h
      split at h
      · rename_i q hcur
        cases h
        exact ⟨⟨rfl, rfl, rfl, rfl, rfl, rfl, rfl, rfl, rfl, hx.symm, hg.symm⟩, rfl, rfl, rfl,
          .inr ⟨⟨q, hcur⟩, rfl⟩, rfl, rfl, rfl, rfl⟩
      · cases h
        exact ⟨⟨rfl, rfl, rfl, rfl, rfl, rfl, rfl, rfl, rfl, hx.symm, hg.symm⟩, rfl, rfl, rfl, .inl rfl, rfl, rfl,
          rfl, rfl⟩

end Handlers

theorem Completion.effect (h : Completion s msg fut t r) : Effect s msg t := by
  cases h with
  | failed hf => exact .failed hf (discarded_noteExit _)
  | runStep hf hk hw => exact .stepped hf hk hw (stepCounted _ _)
  | checkpoint hf hk hc =>
    obtain ⟨metrics, hm, hcounted⟩ := checkpointCounted _ hc
    exact .checkpointed hf hk metrics hm hcounted
  | validation hf hk hw hc => exact .validated hf hk hw (validationCounted _ hc)

theorem Effect.noted (h : Effect s msg t) : Noted msg.exitedReason s t := by
  cases h with
  | failed _ hc => exact hc.toNoted
  | stepped _ _ _ hc => exact hc.toNoted
  | validated _ _ _ hc => exact hc.toNoted
  | checkpointed _ _ _ _ hc => exact hc.toNoted

/-- The cache of checkpoints has no part in the effect. -/
theorem Effect.of_cache {c : AList fun _ : Workload => CompletedMessage}
    (h : Effect { s with cachedCheckpoints := c } msg t) : Effect s msg t := by
  have hnoted : ∀ {e}, Noted e { s with cachedCheckpoints := c } t → Noted e s t :=
    fun h => ⟨h.1, h.2, h.3, h.4, h.5, h.6, h.7, h.8, h.9, h.10, h.11⟩
  cases h with
  | failed hf hc =>
    exact .failed hf ⟨hnoted hc.toNoted, hc.2, hc.3, hc.4, hc.5, hc.6, hc.7, hc.8, hc.9⟩
  | stepped hf hk hw hc =>
    exact .stepped hf hk hw ⟨hnoted hc.toNoted, hc.2, hc.3, hc.4, hc.5, hc.6, hc.7, hc.8⟩
  | validated hf hk hw hc =>
    exact .validated hf hk hw
      ⟨hnoted hc.toNoted, hc.2, hc.3, hc.4, hc.5, hc.6, hc.7, hc.8, hc.9⟩
  | checkpointed hf hk metrics hm hc =>
    exact .checkpointed hf hk metrics hm
      ⟨hnoted hc.toNoted, hc.2, hc.3, hc.4, hc.5, hc.6, hc.7, hc.8, hc.9⟩

end TrialWorkloadSequencer

open TrialWorkloadSequencer

variable {ι : Type} {s t : TrialWorkloadSequencer ι} {e : SequencerEvent ι}

/-! ### Steps of a run -/

/-- The cached message that completes the next workload. -/
def TrialWorkloadSequencer.cachedMessage (s : TrialWorkloadSequencer ι) : Option CompletedMessage :=
  if s.upToDate then none
  else match s.workload with
    | .ok w => s.cachedCheckpoints.lookup w
    | .error _ => none

/-- The message of the workload that a step completes, unless its results are discarded. -/
def doneMessage (x : SequencerEdge ι) : Option CompletedMessage :=
  let msg := match x.event with
    | .workloadCompleted msg _ => some msg
    | .completeCachedCheckpoints => x.pre.cachedMessage
    | _ => none
  msg.bind fun msg => if Fails msg.exitedReason then none else some msg

/-- What a step does, by the message it completes. -/
inductive Moves (x : SequencerEdge ι) : Prop
  | setTrialID (trialID : ℤ) (he : x.event = .setTrialID trialID)
      (ht : x.post = x.pre.setTrialID trialID)
  | operationRequested (op : Runnable ι) (he : x.event = .operationRequested op)
      (ht : x.post = x.pre.operationRequested op)
  | rolledBack (he : x.event = .rollBackSequencer) (ht : x.post = x.pre.rollBackSequencer.1)
  | nothing (e : Option ExitedReason) (he : e = none ∨ Fails e) (hd : doneMessage x = none)
      (hc : Discarded e x.pre x.post)
  | stepped {msg : CompletedMessage} (hd : doneMessage x = some msg)
      (hk : msg.workload.kind = .runStep) (hw : x.pre.workload = .ok msg.workload)
      (hc : StepCounted msg.exitedReason msg.workload.numBatches x.pre x.post)
  | validated {msg : CompletedMessage} (hd : doneMessage x = some msg)
      (hk : msg.workload.kind = .computeValidationMetrics)
      (hw : x.pre.workload = .ok msg.workload) (hc : ValidationCounted msg.exitedReason x.pre x.post)
  | checkpointed {msg : CompletedMessage} (hd : doneMessage x = some msg)
      (hk : msg.workload.kind = .checkpointModel) (metrics : CheckpointMetrics)
      (hm : msg.checkpointMetrics = some metrics)
      (hc : CheckpointCounted msg.exitedReason metrics x.pre x.post)

theorem Moves.of_effect {x : SequencerEdge ι} {msg : CompletedMessage}
    (hd : doneMessage x = if Fails msg.exitedReason then none else some msg)
    (h : Effect x.pre msg x.post) : Moves x := by
  cases h with
  | failed hf hc => exact .nothing _ (.inr hf) (by simpa [hf] using hd) hc
  | stepped hf hk hw hc => exact .stepped (by simpa [hf] using hd) hk hw hc
  | validated hf hk hw hc => exact .validated (by simpa [hf] using hd) hk hw hc
  | checkpointed hf hk metrics hm hc =>
    exact .checkpointed (by simpa [hf] using hd) hk metrics hm hc

/-- Completing cached checkpoints does nothing, or completes the cached message of the next
    workload. -/
theorem completeCachedCheckpoints_spec {r : Option (Runnable ι × OpMetrics)}
    (h : s.completeCachedCheckpoints = .ok (t, r)) : (s.cachedMessage = none ∧ t = s) ∨
      ∃ w m, s.cachedMessage = some m ∧ s.cachedCheckpoints.lookup w = some m ∧
        Completion { s with cachedCheckpoints := s.cachedCheckpoints.erase w } m none t r := by
  unfold completeCachedCheckpoints at h
  split at h
  · rename_i hup
    cases h
    exact .inl ⟨if_pos hup, rfl⟩
  · rename_i hup
    obtain ⟨w, hw, h⟩ := bind_eq_ok.mp h
    have hcached : s.cachedMessage = s.cachedCheckpoints.lookup w := by
      rw [cachedMessage, if_neg hup, wrap_eq_ok.mp hw]
    split at h
    · rename_i m hm
      exact .inr ⟨w, m, hcached.trans hm, hm, completion_of_workloadCompleted (wrap_eq_ok.mp h)⟩
    · rename_i hm
      cases h
      exact .inl ⟨hcached.trans hm, rfl⟩

theorem moves_of_step (h : SequencerStep s e t) : Moves ⟨s, e, t⟩ := by
  obtain ⟨r, h⟩ := h
  cases e with
  | setTrialID trialID => cases h; exact .setTrialID trialID rfl rfl
  | operationRequested op => cases h; exact .operationRequested op rfl rfl
  | workloadCompleted msg fut => exact .of_effect rfl (completion_of_workloadCompleted h).effect
  | rollBackSequencer => cases h; exact .rolledBack rfl rfl
  | completeCachedCheckpoints =>
    rcases completeCachedCheckpoints_spec h with ⟨hnone, rfl⟩ | ⟨w, m, hm, -, hc⟩
    · refine .nothing none (.inl rfl) (by simp [doneMessage, hnone]) ?_
      exact discarded_noteExit none
    · exact .of_effect (by simp [doneMessage, hm]) hc.effect.of_cache

/-- The step completes a workload of this kind. -/
def completes (kind : Kind) (x : SequencerEdge ι) : Bool :=
  (doneMessage x).any (·.workload.kind == kind)

/-- The batches of the `RUN_STEP` that a step completes. -/
def stepBatches (x : SequencerEdge ι) : ℤ :=
  match doneMessage x with
  | some msg => if msg.workload.kind = .runStep then msg.workload.numBatches else 0
  | none => 0

/-- The batches of all steps completed in a run. -/
def trainedBatches (tr : List (SequencerEdge ι)) : ℤ := (tr.map stepBatches).sum

/-! ### Validating first -/

/-- Nothing is trained before the initial validation. -/
structure ValidatesFirst (s : TrialWorkloadSequencer ι) : Prop where
  state : s.batchesSinceLastCkpt ≠ 0 → s.needInitialValidation = false
  snapshot : s.latestCheckpointSequencerSnapshot.batchesSinceLastCkpt = 0

theorem validatesFirst_new (exp : Experiment) (globalBatchSize : ℤ) (first : Option Checkpoint) :
    ValidatesFirst (newTrialWorkloadSequencer ι exp globalBatchSize first) :=
  ⟨fun h => absurd rfl h, rfl⟩

theorem validatesFirst_step (s : TrialWorkloadSequencer ι) (e : SequencerEvent ι)
    (t : TrialWorkloadSequencer ι) (h : ValidatesFirst s) (hst : SequencerStep s e t) :
    ValidatesFirst t := by
  cases moves_of_step hst with
  | setTrialID trialID he ht => exact (show t = _ from ht) ▸ ⟨h.state, h.snapshot⟩
  | operationRequested op he ht => exact (show t = _ from ht) ▸ ⟨h.state, h.snapshot⟩
  | rolledBack he ht =>
    exact (show t = _ from ht) ▸ ⟨fun hne => absurd h.snapshot hne, h.snapshot⟩
  | nothing e' he hd hc =>
    exact ⟨by rw [hc.sinceLastCkpt, hc.needInitialValidation]; exact h.state,
      hc.snapshot ▸ h.snapshot⟩
  | stepped hd hk hw hc =>
    obtain ⟨q, length, hstep, -⟩ := workload_runStep hw hk
    exact ⟨fun _ => hc.needInitialValidation.trans hstep.needInitialValidation,
      hc.snapshot ▸ h.snapshot⟩
  | validated hd hk hw hc =>
    refine ⟨fun _ => hc.needInitialValidation, ?_⟩
    have hsnap := hc.snapshot
    split at hsnap
    · rename_i h0
      exact hsnap ▸ hc.sinceLastCkpt.trans h0
    · exact hsnap ▸ h.snapshot
  | checkpointed hd hk metrics hm hc =>
    exact ⟨fun hne => absurd hc.sinceLastCkpt hne, hc.snapshot ▸ hc.sinceLastCkpt⟩

/-- Once the trial is exiting early, only a checkpoint is still handed out, for unsaved batches. -/
theorem workload_of_exitingEarly {w : Workload} (h : ValidatesFirst s)
    (hexit : s.exitingEarly = true) (hw : s.workload = .ok w) :
    s.postGracefulStopCheckpointNeeded = true ∧ w = s.checkpoint := by
  have hup := upToDate_of_workload hw
  have hneeded : s.postGracefulStopCheckpointNeeded = true := by
    simpa [upToDate, hexit] using (Bool.or_eq_false_iff.mp hup).2
  have hunsaved : s.batchesSinceLastCkpt ≠ 0 := by
    simpa using (Bool.and_eq_true_iff.mp hneeded).2
  have hid := trialIDValid_of_workload hw
  refine ⟨hneeded, ?_⟩
  rw [workload, if_neg (by simp [hup]), if_neg (by simp [hid]),
    if_neg (by simp [h.state hunsaved]), if_pos hneeded] at hw
  exact (Except.ok.inj hw).symm

end Determined.Trial
