import Determined.Schemes.Drive
import Determined.Trial.SequencerRuns

/-! Whether the sequencer gets anywhere: repeatedly taking `workload` and completing it.

    With both periods absent or at least one batch long, every completed workload lowers a rank:
    first the operations left, then the batches left of the current `Train`, then the validation and
    the checkpoint that are due (`rank_lt`). A period that rounds to zero batches breaks that.
    `equalWithinBatch` accepts zero batches, so `minValidationNeeded` (or `minCheckpointNeeded`)
    holds again the moment it was satisfied, and the sequencer never trains.
    `batchesThisStep` does guard against such a period (it takes at least one batch); the two tests
    in front of it do not. The main result, `finishes_iff`, has the exact condition. -/

namespace Determined.Trial
open Determined.Model Determined.Searcher Determined.Schemes

/-- What comes back with a successful workload. -/
structure Outcome where
  checkpointMetrics : CheckpointMetrics
  validationMetrics : Option ValidationMetrics
  isBestValidation : Option Bool
  deriving DecidableEq, Repr

/-- The completion message of a successful workload. -/
def Outcome.message (o : Outcome) (w : Workload) : CompletedMessage where
  workload := w
  exitedReason := none
  checkpointMetrics := if w.kind = .checkpointModel then some o.checkpointMetrics else none
  validationMetrics := if w.kind = .computeValidationMetrics then o.validationMetrics else none

def isValidate {ι : Type} : Runnable ι → Bool
  | .validate _ => true
  | _ => false

def isCheckpoint {ι : Type} : Runnable ι → Bool
  | .checkpoint _ => true
  | _ => false

namespace TrialWorkloadSequencer

variable {ι : Type} {s t : TrialWorkloadSequencer ι} {o : Outcome}

/-- Take the next workload and complete it successfully. -/
def advance (s : TrialWorkloadSequencer ι) (o : Outcome) :
    Except Fault (TrialWorkloadSequencer ι) := do
  let w ← s.workload
  let r ← s.workloadCompleted (o.message w) (some o.isBestValidation)
  return r.1

/-- Repeating `advance` gets the sequencer up to date. -/
def ReachesUpToDate (outcomes : ℕ → Outcome) (s : TrialWorkloadSequencer ι) : Prop :=
  Finishes advance (fun s => s.upToDate = true) outcomes s

/-- Whether the current operation is a `Checkpoint`. -/
def atCheckpoint (s : TrialWorkloadSequencer ι) : Bool := s.curOp.any isCheckpoint

theorem atValidate_eq : s.atValidate = s.curOp.any isValidate := by
  unfold atValidate
  rcases s.curOp with _ | _ | _ | _ <;> rfl

/-- The batches the current operation trains for. -/
def curOpBatches (s : TrialWorkloadSequencer ι) : ℤ :=
  match s.curOp with
  | some (.train _ length) => length.toNearestBatch s.unitContext
  | _ => 0

/-! ### What one successful workload does -/

/-- What no successful workload changes. -/
structure Kept (s t : TrialWorkloadSequencer ι) : Prop where
  ops : t.ops = s.ops
  minValidationPeriod : t.minValidationPeriod = s.minValidationPeriod
  minCheckpointPeriod : t.minCheckpointPeriod = s.minCheckpointPeriod
  unitContext : t.unitContext = s.unitContext
  trialIDValid : t.trialIDValid = s.trialIDValid
  exitingEarly : t.exitingEarly = s.exitingEarly
  gracefulStop : t.gracefulStop = s.gracefulStop

theorem Kept.snapshotIfSaved (h : Kept s t) : Kept s t.snapshotIfSaved := by
  unfold TrialWorkloadSequencer.snapshotIfSaved
  split
  · exact ⟨h.1, h.2, h.3, h.4, h.5, h.6, h.7⟩
  · exact h

/-- The state after a successful validation. -/
structure Validated (s t : TrialWorkloadSequencer ι) : Prop extends Kept s t where
  curOpIdx : t.curOpIdx = s.curOpIdx + if s.atValidate then 1 else 0
  towards : t.batchesTowardsCurrentOp = s.batchesTowardsCurrentOp
  sinceLastVal : t.batchesSinceLastVal = 0
  sinceLastCkpt : t.batchesSinceLastCkpt = s.batchesSinceLastCkpt
  needInitialValidation : t.needInitialValidation = false

/-- The state after a successful checkpoint. -/
structure Checkpointed (s t : TrialWorkloadSequencer ι) : Prop extends Kept s t where
  curOpIdx : t.curOpIdx = s.curOpIdx + if s.atCheckpoint then 1 else 0
  towards : t.batchesTowardsCurrentOp = s.batchesTowardsCurrentOp
  sinceLastVal : t.batchesSinceLastVal = s.batchesSinceLastVal
  sinceLastCkpt : t.batchesSinceLastCkpt = 0
  needInitialValidation : t.needInitialValidation = s.needInitialValidation

theorem admits_of_workload {w : Workload} (hw : s.workload = .ok w) :
    s.admits (o.message w) = .ok ⟨⟩ := by
  have hup : s.upToDate = false := by
    by_contra hup
    rw [Bool.not_eq_false] at hup
    simp [workload, hup] at hw
  simp [admits, hup, hw, Outcome.message, bind, Except.bind, pure, Except.pure]

theorem advance_of_workload {w : Workload} (hw : s.workload = .ok w) :
    s.advance o = (s.workloadCompleted (o.message w) (some o.isBestValidation)).map (·.1) := by
  rw [advance, hw]
  rfl

theorem advance_validate (hw : s.workload = .ok s.validate) (o : Outcome) :
    ∃ t, s.advance o = .ok t ∧ Validated s t := by
  obtain ⟨wanted, hwanted⟩ : ∃ b, s.postValidationCkptWanted (some o.isBestValidation) = .ok b := by
    unfold postValidationCkptWanted
    split
    · exact ⟨_, rfl⟩
    · split <;> exact ⟨_, rfl⟩
  have hdone : s.workloadCompleted (o.message s.validate) (some o.isBestValidation) =
      s.computeValidationMetricsCompleted (o.message s.validate) (some o.isBestValidation) := by
    simp only [workloadCompleted, admits_of_workload hw]
    rfl
  rw [advance_of_workload hw, hdone, computeValidationMetricsCompleted, hwanted]
  have hcount : Kept s (s.countValidation wanted) := ⟨rfl, rfl, rfl, rfl, rfl, rfl, rfl⟩
  have hnext : Kept s (s.countValidation wanted).nextOp := ⟨rfl, rfl, rfl, rfl, rfl, rfl, rfl⟩
  have hstays : s.atValidate = false →
      Validated s (s.countValidation wanted).snapshotIfSaved := by
    intro hno
    refine ⟨hcount.snapshotIfSaved, ?_, ?_, ?_, ?_, ?_⟩ <;> simp [countValidation, hno]
  cases hop : s.curOp with
  | none => exact ⟨_, rfl, hstays (by simp [atValidate, hop])⟩
  | some op =>
    cases op with
    | train q length => exact ⟨_, rfl, hstays (by simp [atValidate, hop])⟩
    | checkpoint q => exact ⟨_, rfl, hstays (by simp [atValidate, hop])⟩
    | validate q =>
      refine ⟨_, rfl, hnext.snapshotIfSaved, ?_, ?_, ?_, ?_, ?_⟩ <;>
        simp [countValidation, nextOp, atValidate, hop]

theorem advance_checkpoint (hw : s.workload = .ok s.checkpoint) (hup : s.curOpIdx ≠ s.ops.length)
    (hex : s.exitingEarly = false) (o : Outcome) :
    ∃ t, s.advance o = .ok t ∧ Checkpointed s t := by
  have hdone : s.workloadCompleted (o.message s.checkpoint) (some o.isBestValidation) =
      s.checkpointModelCompleted (o.message s.checkpoint) := by
    simp only [workloadCompleted, admits_of_workload hw]
    rfl
  have hstill : (s.countCheckpoint o.checkpointMetrics).upToDate = false := by
    simpa [upToDate, countCheckpoint, hex] using Ne.symm hup
  rw [advance_of_workload hw, hdone]
  simp only [checkpointModelCompleted, Outcome.message, checkpoint, if_true, hstill]
  cases hop : s.curOp with
  | none =>
    exact ⟨_, rfl, ⟨rfl, rfl, rfl, rfl, rfl, rfl, rfl⟩, by simp [atCheckpoint, hop]; rfl, rfl, rfl,
      rfl, rfl⟩
  | some op =>
    cases op with
    | train q length =>
      exact ⟨_, rfl, ⟨rfl, rfl, rfl, rfl, rfl, rfl, rfl⟩, by simp [atCheckpoint, hop, isCheckpoint]; rfl, rfl,
        rfl, rfl, rfl⟩
    | validate q =>
      exact ⟨_, rfl, ⟨rfl, rfl, rfl, rfl, rfl, rfl, rfl⟩, by simp [atCheckpoint, hop, isCheckpoint]; rfl, rfl,
        rfl, rfl, rfl⟩
    | checkpoint q =>
      exact ⟨_, rfl, ⟨rfl, rfl, rfl, rfl, rfl, rfl, rfl⟩, by simp [atCheckpoint, hop, isCheckpoint]; rfl, rfl,
        rfl, rfl, rfl⟩

/-- A successful step either completes its `Train` or brings it forward. -/
theorem advance_train {q : ι} {length : Length} {n : ℤ} (hop : s.curOp = some (.train q length))
    (hw : s.workload = .ok (s.train n)) (o : Outcome) :
    ∃ t, s.advance o = .ok t ∧ Kept s t ∧
      if length.equalWithinBatch (s.batchesTowardsCurrentOp + n) s.unitContext
      then t.curOpIdx = s.curOpIdx + 1 ∧ t.batchesTowardsCurrentOp = 0
      else t.curOpIdx = s.curOpIdx ∧ t.batchesTowardsCurrentOp = s.batchesTowardsCurrentOp + n := by
  have hdone : s.workloadCompleted (o.message (s.train n)) (some o.isBestValidation) =
      .ok ((s.runStepCompleted (o.message (s.train n))).1,
        (s.runStepCompleted (o.message (s.train n))).2.map (·, .none)) := by
    simp only [workloadCompleted, admits_of_workload hw]
    rfl
  have htowards : (s.countStep (o.message (s.train n))).batchesTowardsCurrentOp =
      s.batchesTowardsCurrentOp + n := rfl
  refine ⟨_, by rw [advance_of_workload hw, hdone]; rfl, ?_⟩
  unfold runStepCompleted
  rw [hop]
  dsimp only
  rw [htowards]
  split
  · exact ⟨⟨rfl, rfl, rfl, rfl, rfl, rfl, rfl⟩, rfl, rfl⟩
  · exact ⟨⟨rfl, rfl, rfl, rfl, rfl, rfl, rfl⟩, rfl, rfl⟩

/-! ### Progress -/

/-- A sequencer that has its trial id and is not stopping, somewhere in its list of operations. -/
structure Running (s : TrialWorkloadSequencer ι) : Prop where
  trialIDValid : s.trialIDValid = true
  exitingEarly : s.exitingEarly = false
  gracefulStop : s.gracefulStop = false
  idx : s.curOpIdx ≤ s.ops.length
  globalBatchSize : 0 < s.unitContext.globalBatchSize
  recordsPerEpoch : 0 < s.unitContext.recordsPerEpoch
  lengths : ∀ q length, Runnable.train q length ∈ s.ops → 0 < length.units
  towards_nonneg : 0 ≤ s.batchesTowardsCurrentOp
  towards_lt : s.batchesTowardsCurrentOp < max s.curOpBatches 1

theorem Running.upToDate_iff (h : Running s) :
    s.upToDate = true ↔ s.curOpIdx = s.ops.length := by
  rw [upToDate, h.exitingEarly, Bool.false_and, Bool.or_false, beq_iff_eq]
  exact eq_comm

/-- While it is running, the sequencer is at an operation or up to date. -/
theorem Running.curOp_some (h : Running s) (hup : ¬ s.upToDate = true) :
    ∃ op, s.curOp = some op ∧ op ∈ s.ops := by
  have hlt : s.curOpIdx < s.ops.length := lt_of_le_of_ne h.idx (mt h.upToDate_iff.mpr hup)
  exact ⟨_, List.getElem?_eq_getElem hlt, List.getElem_mem hlt⟩

/-- The workload of a running sequencer that is not up to date, branch by branch. -/
theorem Running.workload_eq (h : Running s) (hup : ¬ s.upToDate = true) :
    s.workload =
      if s.needInitialValidation then .ok s.validate
      else if s.postValidationCheckpointNeeded then .ok s.checkpoint
      else if s.minValidationNeeded then .ok s.validate
      else if s.minCheckpointNeeded then .ok s.checkpoint
      else match s.curOp with
        | some (.validate _) =>
          if s.batchesSinceLastCkpt != 0 then .ok s.checkpoint else .ok s.validate
        | some (.checkpoint _) => .ok s.checkpoint
        | some (.train _ length) => .ok (s.train (s.batchesThisStep length))
        | none => .error (.panic "index out of range") := by
  rw [workload, if_neg hup, postGracefulStopCheckpointNeeded, h.trialIDValid, h.gracefulStop]
  rfl

/-- Being past the operation, or still at it with the batches done so far. -/
theorem Running.of_kept (h : Running s) (hk : Kept s t) (hup : ¬ s.upToDate = true)
    (hidx : t.curOpIdx = s.curOpIdx ∨ t.curOpIdx = s.curOpIdx + 1)
    (hnn : 0 ≤ t.batchesTowardsCurrentOp) (hlt : t.batchesTowardsCurrentOp < max t.curOpBatches 1) :
    Running t where
  trialIDValid := hk.trialIDValid.trans h.trialIDValid
  exitingEarly := hk.exitingEarly.trans h.exitingEarly
  gracefulStop := hk.gracefulStop.trans h.gracefulStop
  idx := by
    have hne := mt h.upToDate_iff.mpr hup
    have := h.idx
    rw [hk.ops]
    omega
  globalBatchSize := hk.unitContext ▸ h.globalBatchSize
  recordsPerEpoch := hk.unitContext ▸ h.recordsPerEpoch
  lengths := hk.ops ▸ h.lengths
  towards_nonneg := hnn
  towards_lt := hlt

theorem Kept.curOp (h : Kept s t) (hidx : t.curOpIdx = s.curOpIdx) : t.curOp = s.curOp := by
  rw [TrialWorkloadSequencer.curOp, h.ops, hidx, TrialWorkloadSequencer.curOp]

theorem Kept.curOpBatches (h : Kept s t) (hidx : t.curOpIdx = s.curOpIdx) :
    t.curOpBatches = s.curOpBatches := by
  rw [TrialWorkloadSequencer.curOpBatches, h.curOp hidx, h.unitContext,
    TrialWorkloadSequencer.curOpBatches]

/-- Off a `Train`, no batches count towards the current operation. -/
theorem Running.towards_eq_zero (h : Running s) (hb : s.curOpBatches = 0) :
    s.batchesTowardsCurrentOp = 0 := by
  have hnn := h.towards_nonneg
  have hlt := h.towards_lt
  rw [hb] at hlt
  omega

/-- A workload that leaves the batches done so far alone keeps the sequencer running if it moves on
    from an operation other than a `Train` at most. -/
theorem Running.of_towards_eq (h : Running s) (hk : Kept s t) (hup : ¬ s.upToDate = true)
    {b : Bool} (hidx : t.curOpIdx = s.curOpIdx + if b then 1 else 0)
    (hb : b = true → s.curOpBatches = 0)
    (htow : t.batchesTowardsCurrentOp = s.batchesTowardsCurrentOp) : Running t := by
  cases b with
  | true =>
    have h0 := h.towards_eq_zero (hb rfl)
    exact h.of_kept hk hup (.inr hidx) (by omega) (by omega)
  | false =>
    rw [if_neg Bool.false_ne_true, Nat.add_zero] at hidx
    refine h.of_kept hk hup (.inl hidx) (htow ▸ h.towards_nonneg) ?_
    rw [htow, hk.curOpBatches hidx]
    exact h.towards_lt

theorem curOpBatches_of_atValidate (h : s.atValidate = true) : s.curOpBatches = 0 := by
  obtain ⟨q, hq⟩ := atValidate_iff.mp h
  simp [curOpBatches, hq]

theorem curOpBatches_of_atCheckpoint (h : s.atCheckpoint = true) : s.curOpBatches = 0 := by
  unfold atCheckpoint at h
  unfold curOpBatches
  rcases hop : s.curOp with _ | _ | _ | _ <;> simp [hop, isCheckpoint] at h ⊢

theorem Running.validated (h : Running s) (hup : ¬ s.upToDate = true) (hv : Validated s t) :
    Running t :=
  h.of_towards_eq hv.toKept hup hv.curOpIdx curOpBatches_of_atValidate hv.towards

theorem Running.checkpointed (h : Running s) (hup : ¬ s.upToDate = true) (hc : Checkpointed s t) :
    Running t :=
  h.of_towards_eq hc.toKept hup hc.curOpIdx curOpBatches_of_atCheckpoint hc.towards

/-- A step takes at least one batch, and no more than are left. -/
theorem batchesThisStep_pos (length : Length) : 1 ≤ s.batchesThisStep length := le_max_right _ _

theorem batchesThisStep_le (length : Length) :
    s.batchesThisStep length ≤
      max (length.toNearestBatch s.unitContext - s.batchesTowardsCurrentOp) 1 := by
  unfold batchesThisStep
  dsimp only
  omega

/-- A step that does not complete its `Train` leaves batches to train: at the last of them the
    length is equal within a batch. -/
theorem Running.train_left (h : Running s) {q : ι} {length : Length}
    (hop : s.curOp = some (.train q length)) (hmem : Runnable.train q length ∈ s.ops)
    (hne : ¬ length.equalWithinBatch (s.batchesTowardsCurrentOp + s.batchesThisStep length)
      s.unitContext = true) :
    s.batchesTowardsCurrentOp + s.batchesThisStep length <
      max (length.toNearestBatch s.unitContext) 1 := by
  have hlen := h.lengths q length hmem
  have hle := s.batchesThisStep_le length
  have hpos := s.batchesThisStep_pos length
  have hnn := h.towards_nonneg
  have hlt : s.batchesTowardsCurrentOp < max (length.toNearestBatch s.unitContext) 1 := by
    simpa [curOpBatches, hop] using h.towards_lt
  by_contra hge
  rcases le_or_gt (length.toNearestBatch s.unitContext) 0 with h0 | h1
  · -- less than one batch: the single batch just run is all of it
    have heq : s.batchesTowardsCurrentOp + s.batchesThisStep length = 1 := by omega
    exact hne (heq ▸ Length.equalWithinBatch_one hlen h.globalBatchSize h.recordsPerEpoch h0)
  · have heq : s.batchesTowardsCurrentOp + s.batchesThisStep length =
        length.toNearestBatch s.unitContext := by omega
    exact hne (heq ▸ Length.equalWithinBatch_toNearestBatch hlen.le h.globalBatchSize
      h.recordsPerEpoch)

/-- What is left to do: operations, then batches of the current `Train`, then the validation and
    the checkpoint that are due before it. -/
def rank (s : TrialWorkloadSequencer ι) : ℕ ×ₗ ℕ ×ₗ ℕ :=
  toLex (s.ops.length - s.curOpIdx, toLex
    ((max s.curOpBatches 1 - s.batchesTowardsCurrentOp).toNat,
      (if s.needInitialValidation || s.minValidationNeeded then 2 else 0) +
        if s.batchesSinceLastCkpt = 0 then 0 else 1))

/-- A period that holds again as soon as it was satisfied: it is equal within a batch to none. -/
def roundsToZero (period : Length) (ctx : UnitContext) : Bool :=
  period.units != 0 && period.equalWithinBatch 0 ctx

/-- Rank step, for a workload that trains nothing: it completes the operation, or nothing it was
    needed for is needed any longer. -/
theorem rank_lt_of_due (hk : Kept s t) (hup : s.curOpIdx < s.ops.length) {b : Bool}
    (hidx : t.curOpIdx = s.curOpIdx + if b then 1 else 0)
    (htow : t.batchesTowardsCurrentOp = s.batchesTowardsCurrentOp)
    (hdue : b = false →
      ((if t.needInitialValidation || t.minValidationNeeded then 2 else 0) +
        if t.batchesSinceLastCkpt = 0 then 0 else 1) <
      ((if s.needInitialValidation || s.minValidationNeeded then 2 else 0) +
        if s.batchesSinceLastCkpt = 0 then 0 else 1)) : t.rank < s.rank := by
  cases b with
  | true =>
    refine Prod.Lex.left _ _ ?_
    rw [hk.ops, hidx, if_pos rfl]
    omega
  | false =>
    rw [if_neg Bool.false_ne_true, Nat.add_zero] at hidx
    rw [rank, rank, hk.ops, hidx, hk.curOpBatches hidx, htow]
    exact Prod.Lex.right _ (Prod.Lex.right _ (hdue rfl))

/-- Rank lemma: unless a period rounds to zero, a running sequencer that is not up to date takes a
    workload, and its completion lowers the rank. -/
theorem Running.advance_rank_lt (h : Running s) (hup : ¬ s.upToDate = true)
    (hval : roundsToZero s.minValidationPeriod s.unitContext = false)
    (hckpt : roundsToZero s.minCheckpointPeriod s.unitContext = false) (o : Outcome) :
    ∃ t, s.advance o = .ok t ∧ (Running t ∧ Kept s t) ∧ t.rank < s.rank := by
  have hne : s.curOpIdx ≠ s.ops.length := mt h.upToDate_iff.mpr hup
  have hlt : s.curOpIdx < s.ops.length := lt_of_le_of_ne h.idx hne
  have hw := h.workload_eq hup
  have validates : s.workload = .ok s.validate → (s.atValidate = false →
      (s.needInitialValidation || s.minValidationNeeded) = true) →
      ∃ t, s.advance o = .ok t ∧ (Running t ∧ Kept s t) ∧ t.rank < s.rank := by
    intro hw hdue
    obtain ⟨t, ht, hv⟩ := advance_validate hw o
    refine ⟨t, ht, ⟨h.validated hup hv, hv.toKept⟩,
      rank_lt_of_due hv.toKept hlt hv.curOpIdx hv.towards fun hno => ?_⟩
    have hnomore : t.minValidationNeeded = false := by
      simpa [minValidationNeeded, roundsToZero, hv.minValidationPeriod, hv.sinceLastVal,
        hv.unitContext] using hval
    rw [hdue hno, hv.needInitialValidation, hnomore, hv.sinceLastCkpt]
    simp
  have checkpoints : s.workload = .ok s.checkpoint →
      (s.atCheckpoint = false → s.batchesSinceLastCkpt ≠ 0) →
      ∃ t, s.advance o = .ok t ∧ (Running t ∧ Kept s t) ∧ t.rank < s.rank := by
    intro hw hdue
    obtain ⟨t, ht, hc⟩ := advance_checkpoint hw hne h.exitingEarly o
    refine ⟨t, ht, ⟨h.checkpointed hup hc, hc.toKept⟩,
      rank_lt_of_due hc.toKept hlt hc.curOpIdx hc.towards fun hno => ?_⟩
    have hsame : t.minValidationNeeded = s.minValidationNeeded := by
      simp [minValidationNeeded, hc.minValidationPeriod, hc.sinceLastVal, hc.unitContext]
    rw [hsame, hc.needInitialValidation, hc.sinceLastCkpt, if_pos rfl, if_neg (hdue hno)]
    omega
  split at hw
  · rename_i hinit
    exact validates hw (fun _ => by simp [hinit])
  · split at hw
    · rename_i hpost
      refine checkpoints hw (fun _ => ?_)
      simp only [postValidationCheckpointNeeded, Bool.and_eq_true, bne_iff_ne] at hpost
      exact hpost.2
    · split at hw
      · rename_i hmin
        exact validates hw (fun _ => by simp [hmin])
      · split at hw
        · rename_i hmin
          refine checkpoints hw (fun _ h0 => ?_)
          -- a period that is due with nothing unsaved would round to zero
          rw [minCheckpointNeeded, h0] at hmin
          exact absurd hckpt (by rw [roundsToZero, hmin]; exact Bool.true_eq_false_eq_False)
        · obtain ⟨op, hop, hmem⟩ := h.curOp_some hup
          rw [hop] at hw
          cases op with
          | validate q =>
            dsimp only at hw
            split at hw
            · rename_i hsince
              exact checkpoints hw (fun _ => by simpa using hsince)
            · exact validates hw (fun hno => by simp [atValidate, hop] at hno)
          | checkpoint q =>
            exact checkpoints hw (fun hno => by simp [atCheckpoint, hop, isCheckpoint] at hno)
          | train q length =>
            obtain ⟨t, ht, hk, hcase⟩ := advance_train hop hw o
            refine ⟨t, ht, ?_⟩
            split at hcase
            · obtain ⟨hidx, htow⟩ := hcase
              refine ⟨⟨h.of_kept hk hup (.inr hidx) (by omega) (by omega), hk⟩, ?_⟩
              refine Prod.Lex.left _ _ ?_
              rw [hk.ops, hidx]
              omega
            · rename_i hpart
              obtain ⟨hidx, htow⟩ := hcase
              have hbatches : s.curOpBatches = length.toNearestBatch s.unitContext := by
                simp [curOpBatches, hop]
              have hsame := hk.curOpBatches hidx
              have hleft := h.train_left hop hmem hpart
              have hpos := s.batchesThisStep_pos length
              have hnn := h.towards_nonneg
              rw [← htow, ← hbatches, ← hsame] at hleft
              refine ⟨⟨h.of_kept hk hup (.inl hidx) (by omega) hleft, hk⟩, ?_⟩
              rw [rank, rank, hk.ops, hidx, hsame, htow]
              exact Prod.Lex.right _ (Prod.Lex.left _ _ (by omega))

/-! ### Periods that round to zero -/

/-- The operations not completed yet. -/
def todo (s : TrialWorkloadSequencer ι) : List (Runnable ι) := s.ops.drop s.curOpIdx

/-- Drop the first operation if it is of the given kind. -/
def dropHead (p : Runnable ι → Bool) : List (Runnable ι) → List (Runnable ι)
  | [] => []
  | op :: rest => if p op then rest else op :: rest

theorem dropHead_all (p : Runnable ι → Bool) (l : List (Runnable ι)) :
    (∀ op ∈ dropHead p l, p op = true) ↔ ∀ op ∈ l, p op = true := by
  cases l with
  | nil => rfl
  | cons op rest =>
    rw [dropHead]
    split
    · rename_i hop; simp [hop]
    · rfl

theorem Running.todo_eq_nil_iff (h : Running s) : s.todo = [] ↔ s.upToDate = true := by
  have := h.idx
  rw [todo, List.drop_eq_nil_iff, h.upToDate_iff]
  omega

theorem Kept.todo {p : Runnable ι → Bool} (h : Kept s t)
    (hidx : t.curOpIdx = s.curOpIdx + if s.curOp.any p then 1 else 0) :
    t.todo = dropHead p s.todo := by
  rw [TrialWorkloadSequencer.todo, TrialWorkloadSequencer.todo, h.ops, hidx,
    TrialWorkloadSequencer.curOp]
  rcases lt_or_ge s.curOpIdx s.ops.length with hlt | hge
  · rw [List.getElem?_eq_getElem hlt, List.drop_eq_getElem_cons hlt, dropHead]
    cases hp : p s.ops[s.curOpIdx] with
    | true => simp [hp]
    | false =>
      simp only [Option.any_some, hp, Bool.false_eq_true, if_false, Nat.add_zero]
      exact List.drop_eq_getElem_cons hlt
  · rw [List.getElem?_eq_none hge, List.drop_eq_nil_of_le hge]
    simpa [dropHead] using hge

/-- If all the sequencer hands out are workloads that complete one kind of operation, it finishes
    iff there is nothing else to do. -/
theorem finishes_iff_todo {I : TrialWorkloadSequencer ι → Prop} {p : Runnable ι → Bool}
    (hrun : ∀ s, I s → Running s)
    (hstep : ∀ s o, I s → ¬ s.upToDate = true →
      ∃ t, s.advance o = .ok t ∧ I t ∧ t.todo = dropHead p s.todo)
    (hs : I s) (outcomes : ℕ → Outcome) :
    ReachesUpToDate outcomes s ↔ ∀ op ∈ s.todo, p op = true := by
  constructor
  · refine Finishes.induction (I := I) (Q := fun s => ∀ op ∈ s.todo, p op = true) ?_ ?_ hs
    · intro s o hs hup
      obtain ⟨t, ht, hI, htodo⟩ := hstep s o hs hup
      exact ⟨t, ht, hI, by rw [htodo, dropHead_all]; exact id⟩
    · intro s hs hup
      simp [(hrun s hs).todo_eq_nil_iff.mpr hup]
  · intro hall
    refine Finishes.of_rank (I := fun s => I s ∧ ∀ op ∈ s.todo, p op = true)
      (fun s => s.todo.length) ?_ ⟨hs, hall⟩ outcomes
    rintro s o ⟨hs, hall⟩ hup
    obtain ⟨t, ht, hI, htodo⟩ := hstep s o hs hup
    refine ⟨t, ht, ⟨hI, by rw [htodo, dropHead_all]; exact hall⟩, ?_⟩
    rw [htodo]
    have hne := mt (hrun s hs).todo_eq_nil_iff.mp hup
    cases hl : s.todo with
    | nil => exact absurd hl hne
    | cons op rest => simp [dropHead, hall op (by simp [hl])]

/-- Nothing was trained since the last validation and the last checkpoint. -/
structure Untrained (s : TrialWorkloadSequencer ι) : Prop extends Running s where
  sinceLastVal : s.batchesSinceLastVal = 0
  sinceLastCkpt : s.batchesSinceLastCkpt = 0

theorem Untrained.validated (h : Untrained s) (hup : ¬ s.upToDate = true) (hv : Validated s t) :
    Untrained t :=
  ⟨h.toRunning.validated hup hv, hv.sinceLastVal, hv.sinceLastCkpt.trans h.sinceLastCkpt⟩

theorem Untrained.checkpointed (h : Untrained s) (hup : ¬ s.upToDate = true)
    (hc : Checkpointed s t) : Untrained t :=
  ⟨h.toRunning.checkpointed hup hc, hc.sinceLastVal.trans h.sinceLastVal, hc.sinceLastCkpt⟩

/-- Under a validation period that rounds to zero, an untrained sequencer validates. -/
theorem Untrained.workload_validate (h : Untrained s) (hup : ¬ s.upToDate = true)
    (hval : s.needInitialValidation = true ∨
      roundsToZero s.minValidationPeriod s.unitContext = true) : s.workload = .ok s.validate := by
  have hpost : s.postValidationCheckpointNeeded = false := by
    simp [postValidationCheckpointNeeded, h.sinceLastCkpt]
  rw [h.workload_eq hup, hpost]
  rcases hval with hinit | hval
  · rw [if_pos hinit]
  · have hmin : s.minValidationNeeded = true := by
      rw [minValidationNeeded, h.sinceLastVal]; exact hval
    rw [hmin]
    simp

/-- Under a checkpoint period that rounds to zero, it checkpoints. -/
theorem Untrained.workload_checkpoint (h : Untrained s) (hup : ¬ s.upToDate = true)
    (hinit : s.needInitialValidation = false)
    (hval : roundsToZero s.minValidationPeriod s.unitContext = false)
    (hckpt : roundsToZero s.minCheckpointPeriod s.unitContext = true) :
    s.workload = .ok s.checkpoint := by
  have hpost : s.postValidationCheckpointNeeded = false := by
    simp [postValidationCheckpointNeeded, h.sinceLastCkpt]
  have hmin : s.minValidationNeeded = false := by
    rw [minValidationNeeded, h.sinceLastVal]; exact hval
  have hminc : s.minCheckpointNeeded = true := by
    rw [minCheckpointNeeded, h.sinceLastCkpt]; exact hckpt
  rw [h.workload_eq hup, hpost, hinit, hmin, hminc]
  simp

theorem Untrained.finishes_iff_validates (h : Untrained s)
    (hval : roundsToZero s.minValidationPeriod s.unitContext = true) (outcomes : ℕ → Outcome) :
    ReachesUpToDate outcomes s ↔
      ∀ op ∈ s.todo, isValidate op = true := by
  refine finishes_iff_todo (I := fun s => Untrained s ∧
    roundsToZero s.minValidationPeriod s.unitContext = true) (fun s hs => hs.1.toRunning) ?_
    ⟨h, hval⟩ outcomes
  rintro s o ⟨hs, hval⟩ hup
  obtain ⟨t, ht, hv⟩ := advance_validate (hs.workload_validate hup (.inr hval)) o
  refine ⟨t, ht, ⟨hs.validated hup hv, ?_⟩, hv.todo (atValidate_eq ▸ hv.curOpIdx)⟩
  rw [hv.minValidationPeriod, hv.unitContext]
  exact hval

theorem Untrained.finishes_iff_checkpoints (h : Untrained s)
    (hinit : s.needInitialValidation = false)
    (hval : roundsToZero s.minValidationPeriod s.unitContext = false)
    (hckpt : roundsToZero s.minCheckpointPeriod s.unitContext = true) (outcomes : ℕ → Outcome) :
    ReachesUpToDate outcomes s ↔
      ∀ op ∈ s.todo, isCheckpoint op = true := by
  refine finishes_iff_todo (I := fun s => Untrained s ∧ s.needInitialValidation = false ∧
    roundsToZero s.minValidationPeriod s.unitContext = false ∧
    roundsToZero s.minCheckpointPeriod s.unitContext = true) (fun s hs => hs.1.toRunning) ?_
    ⟨h, hinit, hval, hckpt⟩ outcomes
  rintro s o ⟨hs, hinit, hval, hckpt⟩ hup
  obtain ⟨t, ht, hc⟩ := advance_checkpoint (hs.workload_checkpoint hup hinit hval hckpt)
    (mt hs.upToDate_iff.mpr hup) hs.exitingEarly o
  refine ⟨t, ht, ⟨hs.checkpointed hup hc, ?_⟩, hc.todo hc.curOpIdx⟩
  rw [hc.needInitialValidation, hc.minValidationPeriod, hc.minCheckpointPeriod, hc.unitContext]
  exact ⟨hinit, hval, hckpt⟩

/-- Whether an untrained sequencer can complete these operations: no period rounds to zero, or what
    is handed out for ever is all that is asked for. -/
def productive (minValidationPeriod minCheckpointPeriod : Length) (ctx : UnitContext)
    (initialValidation : Bool) (ops : List (Runnable ι)) : Bool :=
  if roundsToZero minValidationPeriod ctx then ops.all isValidate
  else if roundsToZero minCheckpointPeriod ctx then
    (if initialValidation then dropHead isValidate ops else ops).all isCheckpoint
  else true

theorem Untrained.reaches_iff (h : Untrained s) (outcomes : ℕ → Outcome) :
    ReachesUpToDate outcomes s ↔ productive s.minValidationPeriod s.minCheckpointPeriod
      s.unitContext s.needInitialValidation s.todo = true := by
  unfold productive
  cases hval : roundsToZero s.minValidationPeriod s.unitContext with
  | true =>
    rw [if_pos rfl, List.all_eq_true]
    exact h.finishes_iff_validates hval outcomes
  | false =>
    rw [if_neg Bool.false_ne_true]
    cases hckpt : roundsToZero s.minCheckpointPeriod s.unitContext with
    | false =>
      simp only [Bool.false_eq_true, if_false, iff_true]
      refine Finishes.of_rank (I := fun s => Running s ∧
        roundsToZero s.minValidationPeriod s.unitContext = false ∧
        roundsToZero s.minCheckpointPeriod s.unitContext = false) rank ?_
        ⟨h.toRunning, hval, hckpt⟩ outcomes
      rintro s o ⟨hs, hval, hckpt⟩ hup
      obtain ⟨t, ht, ⟨hrun, hk⟩, hlt⟩ := hs.advance_rank_lt hup hval hckpt o
      refine ⟨t, ht, ⟨hrun, ?_⟩, hlt⟩
      rw [hk.minValidationPeriod, hk.minCheckpointPeriod, hk.unitContext]
      exact ⟨hval, hckpt⟩
    | true =>
      rw [if_pos rfl]
      cases hi : s.needInitialValidation with
      | false =>
        rw [if_neg Bool.false_ne_true, List.all_eq_true]
        exact h.finishes_iff_checkpoints hi hval hckpt outcomes
      | true =>
        rw [if_pos rfl]
        by_cases hup : s.upToDate = true
        · have hnow : ReachesUpToDate outcomes s := Finishes.now hup
          simp [h.todo_eq_nil_iff.mpr hup, dropHead, hnow]
        · -- the initial validation comes first, and may complete the first operation
          obtain ⟨t, ht, hv⟩ := advance_validate (h.workload_validate hup (.inl hi)) (outcomes 0)
          have hlater : ReachesUpToDate outcomes s ↔
              ReachesUpToDate (fun k => outcomes (k + 1)) t := finishes_iff_later hup ht
          rw [hlater, ← hv.todo (atValidate_eq ▸ hv.curOpIdx), List.all_eq_true]
          refine (h.validated hup hv).finishes_iff_checkpoints hv.needInitialValidation ?_ ?_ _
          · rw [hv.minValidationPeriod, hv.unitContext]; exact hval
          · rw [hv.minCheckpointPeriod, hv.unitContext]; exact hckpt

end TrialWorkloadSequencer

open TrialWorkloadSequencer

variable {ι : Type}

/-! ### A new trial -/

/-- A new sequencer that has its trial id and all its operations. -/
def requestedSequencer (exp : Experiment) (globalBatchSize : ℤ) (firstCheckpoint : Option Checkpoint)
    (trialID : ℤ) (ops : List (Runnable ι)) : TrialWorkloadSequencer ι :=
  ops.foldl operationRequested
    ((newTrialWorkloadSequencer ι exp globalBatchSize firstCheckpoint).setTrialID trialID)

theorem foldl_operationRequested (s : TrialWorkloadSequencer ι) (ops : List (Runnable ι)) :
    ops.foldl operationRequested s = { s with ops := s.ops ++ ops } := by
  induction ops generalizing s with
  | nil => simp
  | cons op ops ih => rw [List.foldl_cons, ih]; simp [operationRequested]

theorem untrained_requested {exp : Experiment} {globalBatchSize : ℤ} {ops : List (Runnable ι)}
    (first : Option Checkpoint) (trialID : ℤ) (hg : 0 < globalBatchSize)
    (hr : 0 < exp.config.recordsPerEpoch)
    (hops : ∀ q length, Runnable.train q length ∈ ops → 0 < length.units) :
    Untrained (requestedSequencer exp globalBatchSize first trialID ops) := by
  rw [requestedSequencer, foldl_operationRequested]
  refine ⟨⟨rfl, rfl, rfl, Nat.zero_le _, hg, hr, hops, le_refl _, ?_⟩, rfl, rfl⟩
  exact lt_of_lt_of_le Int.zero_lt_one (le_max_right _ _)

/-- Periods in records, for a batch size of 64. -/
def recordsExperiment (minValidationPeriod : ℤ) : Experiment where
  id := 1
  config :=
    { performInitialValidation := true, checkpointPolicy := .best
      minValidationPeriod := newLengthInRecords minValidationPeriod
      minCheckpointPeriod := newLengthInRecords 100
      searcherUnit := .records, recordsPerEpoch := 1000, schedulingUnit := 100, maxRestarts := 5 }

def trainAndValidate : List (Runnable ℕ) := [.train 0 (newLengthInRecords 640), .validate 0]

def someOutcome : Outcome := ⟨⟨"uuid", [], "", ""⟩, some ⟨1, []⟩, some true⟩

end Determined.Trial
