import Determined.Trial.SequencerEffects
import Determined.Trial.SequencerProgress

/-! How many batches the sequencer trains for an operation: in a run of successful workloads, as
    many as the length of a `Train` truncates to, and at least one.

    The invariant counts the batches trained at each position of the list of operations. It is the
    sequencer's own count at the current operation, zero behind it, and the number asked for at
    every completed `Train`. -/

namespace Determined.Trial
open Determined.Model Determined.Searcher Determined.Schemes TrialWorkloadSequencer

variable {ι : Type} {s t : TrialWorkloadSequencer ι} {tr : List (SequencerEdge ι)}
  {x : SequencerEdge ι} {e : SequencerEvent ι} {i : ℕ}

/-- The batches trained while the sequencer was at an operation. -/
def batchesFor (tr : List (SequencerEdge ι)) (i : ℕ) : ℤ :=
  ((tr.filter (·.pre.curOpIdx == i)).map stepBatches).sum

/-- Nothing fails: no workload exits, and nothing is rolled back. -/
def Succeeds (x : SequencerEdge ι) : Prop :=
  match x.event with
  | .workloadCompleted msg _ => msg.exitedReason = none
  | .rollBackSequencer => False
  | _ => True

instance : DecidablePred (Succeeds (ι := ι))
  | ⟨_, .workloadCompleted msg _, _⟩ => inferInstanceAs (Decidable (msg.exitedReason = none))
  | ⟨_, .rollBackSequencer, _⟩ => inferInstanceAs (Decidable False)
  | ⟨_, .setTrialID _, _⟩ | ⟨_, .operationRequested _, _⟩
  | ⟨_, .completeCachedCheckpoints, _⟩ => inferInstanceAs (Decidable True)

/-- How many batches a `Train` of this length is trained for. -/
def trainBatches (length : Length) (ctx : UnitContext) : ℤ := max 1 (length.toNearestBatch ctx)

theorem batchesFor_snoc (tr : List (SequencerEdge ι)) (x : SequencerEdge ι) (i : ℕ) :
    batchesFor (tr ++ [x]) i =
      batchesFor tr i + if x.pre.curOpIdx = i then stepBatches x else 0 := by
  rw [batchesFor, List.filter_append, List.map_append, List.sum_append, batchesFor]
  by_cases h : x.pre.curOpIdx = i <;> simp [h]

theorem trainedBatches_snoc (tr : List (SequencerEdge ι)) (x : SequencerEdge ι) :
    trainedBatches (tr ++ [x]) = trainedBatches tr + stepBatches x := by
  simp [trainedBatches]

theorem stepBatches_of_kind {msg : CompletedMessage} (hd : doneMessage x = some msg)
    (hk : msg.workload.kind ≠ .runStep) : stepBatches x = 0 := by
  simp [stepBatches, hd, hk]

theorem stepBatches_of_none (hd : doneMessage x = none) : stepBatches x = 0 := by
  simp [stepBatches, hd]

/-- What the counters are after the steps of a run. -/
structure Counted (tr : List (SequencerEdge ι)) (s : TrialWorkloadSequencer ι) : Prop where
  idx : s.curOpIdx ≤ s.ops.length
  total : s.totalBatchesProcessed = trainedBatches tr
  nonneg : 0 ≤ s.batchesTowardsCurrentOp
  towards : s.batchesTowardsCurrentOp = batchesFor tr s.curOpIdx
  later : ∀ i, s.curOpIdx < i → batchesFor tr i = 0
  offTrain : (∀ q length, s.curOp ≠ some (.train q length)) → s.batchesTowardsCurrentOp = 0
  within : ∀ q length, s.curOp = some (.train q length) → length.Positive s.unitContext →
    s.batchesTowardsCurrentOp < trainBatches length s.unitContext
  done : ∀ i < s.curOpIdx, ∀ q length, s.ops[i]? = some (.train q length) →
    length.Positive s.unitContext → batchesFor tr i = trainBatches length s.unitContext

theorem Counted.snoc (h : Counted tr s) (h0 : stepBatches x = 0) : Counted (tr ++ [x]) s := by
  have hfor : ∀ i, batchesFor (tr ++ [x]) i = batchesFor tr i := by simp [batchesFor_snoc, h0]
  refine ⟨h.idx, ?_, h.nonneg, ?_, fun i hi => ?_, h.offTrain, h.within,
    fun i hi q length hop hpos => ?_⟩
  · rw [trainedBatches_snoc, h0, add_zero]; exact h.total
  · rw [hfor]; exact h.towards
  · rw [hfor]; exact h.later i hi
  · rw [hfor]; exact h.done i hi q length hop hpos

/-- A step that trains no batches and stays at its operation. -/
theorem Counted.stays (h : Counted tr x.pre) (h0 : stepBatches x = 0)
    (hops : x.post.ops = x.pre.ops) (hctx : x.post.unitContext = x.pre.unitContext)
    (htotal : x.post.totalBatchesProcessed = x.pre.totalBatchesProcessed)
    (hidx : x.post.curOpIdx = x.pre.curOpIdx)
    (htow : x.post.batchesTowardsCurrentOp = x.pre.batchesTowardsCurrentOp) :
    Counted (tr ++ [x]) x.post := by
  refine Counted.snoc ?_ h0
  have hcur : x.post.curOp = x.pre.curOp := by rw [curOp, curOp, hops, hidx]
  constructor
  · rw [hidx, hops]; exact h.idx
  · rw [htotal]; exact h.total
  · rw [htow]; exact h.nonneg
  · rw [htow, hidx]; exact h.towards
  · rw [hidx]; exact h.later
  · rw [hcur, htow]; exact h.offTrain
  · rw [hcur, htow, hctx]; exact h.within
  · rw [hidx, hops, hctx]; exact h.done

/-- Operations requested before the current ones are done come after them. -/
theorem Counted.requested (h : Counted tr s) (op : Runnable ι) :
    Counted tr (s.operationRequested op) := by
  have hlen : (s.operationRequested op).ops.length = s.ops.length + 1 := by
    simp [operationRequested]
  have hidx := h.idx
  refine ⟨?_, h.total, h.nonneg, h.towards, h.later, fun hno => ?_, fun q length hop hpos => ?_,
    fun i hi q length hop hpos => ?_⟩
  · rw [hlen]
    exact Nat.le_succ_of_le hidx
  · rcases hidx.lt_or_eq with hlt | heq
    · refine h.offTrain fun q length hop => hno q length ?_
      rw [← hop]
      exact List.getElem?_append_left hlt
    · exact h.offTrain fun q length hop => by
        rw [curOp, heq, List.getElem?_length] at hop
        cases hop
  · rcases hidx.lt_or_eq with hlt | heq
    · refine h.within q length ?_ hpos
      rw [← hop]
      exact (List.getElem?_append_left hlt).symm
    · have h0 : s.batchesTowardsCurrentOp = 0 := h.offTrain fun q length hop => by
        rw [curOp, heq, List.getElem?_length] at hop
        cases hop
      rw [show (s.operationRequested op).batchesTowardsCurrentOp = _ from h0]
      exact lt_of_lt_of_le Int.zero_lt_one (le_max_left _ _)
  · refine h.done i hi q length ?_ hpos
    rw [← hop]
    exact (List.getElem?_append_left (Nat.lt_of_lt_of_le hi hidx)).symm

/-- A step that moves on from an operation, which has been trained for if it is a `Train`. -/
theorem Counted.movesOn (h : Counted tr x.pre) (hops : x.post.ops = x.pre.ops)
    (hctx : x.post.unitContext = x.pre.unitContext)
    (htotal : x.post.totalBatchesProcessed = x.pre.totalBatchesProcessed + stepBatches x)
    (hcur : x.pre.curOp.isSome) (hidx : x.post.curOpIdx = x.pre.curOpIdx + 1)
    (htow : x.post.batchesTowardsCurrentOp = 0)
    (hdone : ∀ q length, x.pre.curOp = some (.train q length) →
      length.Positive x.pre.unitContext → x.pre.batchesTowardsCurrentOp + stepBatches x =
        trainBatches length x.pre.unitContext) : Counted (tr ++ [x]) x.post := by
  have hother : ∀ i, i ≠ x.pre.curOpIdx → batchesFor (tr ++ [x]) i = batchesFor tr i :=
    fun i hi => by simp [batchesFor_snoc, hi.symm]
  constructor
  · rw [curOp, Option.isSome_iff_exists] at hcur
    obtain ⟨op, hop⟩ := hcur
    have := (List.getElem?_eq_some_iff.mp hop).1
    rw [hidx, hops]
    omega
  · rw [htotal, trainedBatches_snoc, h.total]
  · rw [htow]
  · rw [htow, hidx, hother _ (by omega), h.later _ (by omega)]
  · intro i hi
    rw [hother _ (by omega), h.later _ (by omega)]
  · exact fun _ => htow
  · intro q length _ _
    rw [htow]
    exact lt_of_lt_of_le Int.zero_lt_one (le_max_left _ _)
  · intro i hi q length hop hpos
    rw [hops] at hop
    rw [hctx] at hpos ⊢
    rcases Nat.lt_or_ge i x.pre.curOpIdx with hlt | hge
    · rw [hother i hlt.ne]
      exact h.done i hlt q length hop hpos
    · obtain rfl : i = x.pre.curOpIdx := by omega
      rw [batchesFor_snoc, if_pos rfl, ← h.towards]
      exact hdone q length hop hpos

/-- A step that does not complete its `Train` brings it forward. -/
theorem Counted.trains (h : Counted tr x.pre) (hops : x.post.ops = x.pre.ops)
    (hctx : x.post.unitContext = x.pre.unitContext) (hpos : 0 ≤ stepBatches x)
    (htotal : x.post.totalBatchesProcessed = x.pre.totalBatchesProcessed + stepBatches x)
    {q : ι} {length : Length} (hcur : x.pre.curOp = some (.train q length))
    (hidx : x.post.curOpIdx = x.pre.curOpIdx)
    (htow : x.post.batchesTowardsCurrentOp = x.pre.batchesTowardsCurrentOp + stepBatches x)
    (hlt : length.Positive x.pre.unitContext →
      x.pre.batchesTowardsCurrentOp + stepBatches x < trainBatches length x.pre.unitContext) :
    Counted (tr ++ [x]) x.post := by
  have hother : ∀ i, i ≠ x.pre.curOpIdx → batchesFor (tr ++ [x]) i = batchesFor tr i :=
    fun i hi => by simp [batchesFor_snoc, hi.symm]
  have hcur' : x.post.curOp = some (.train q length) := by rw [curOp, hops, hidx]; exact hcur
  constructor
  · rw [hidx, hops]; exact h.idx
  · rw [htotal, trainedBatches_snoc, h.total]
  · rw [htow]; exact add_nonneg h.nonneg hpos
  · rw [htow, hidx, batchesFor_snoc, if_pos rfl, h.towards]
  · intro i hi
    rw [hidx] at hi
    rw [hother i hi.ne', h.later i hi]
  · exact fun hno => absurd hcur' (hno q length)
  · intro q' length' hop hpos
    obtain ⟨-, rfl⟩ : q = q' ∧ length = length' := by simpa [hcur'] using hop
    rw [hctx] at hpos ⊢
    rw [htow]
    exact hlt hpos
  · intro i hi q length hop hpos
    rw [hidx] at hi
    rw [hops] at hop
    rw [hctx] at hpos ⊢
    rw [hother i hi.ne]
    exact h.done i hi q length hop hpos

/-- A step is at least one batch long, at most as long as the scheduling unit, and ends with its
    `Train` at the latest. -/
theorem batchesThisStep_bounds (s : TrialWorkloadSequencer ι) (length : Length) :
    1 ≤ s.batchesThisStep length ∧ s.batchesThisStep length ≤ max s.schedulingUnit 1 ∧
      (s.batchesTowardsCurrentOp < trainBatches length s.unitContext →
        s.batchesTowardsCurrentOp + s.batchesThisStep length ≤
          trainBatches length s.unitContext) := by
  have hle := s.batchesThisStep_le length
  refine ⟨s.batchesThisStep_pos length, ?_, fun hlt => ?_⟩
  · unfold batchesThisStep
    dsimp only
    omega
  · unfold trainBatches at hlt ⊢
    omega

/-- Step lemma: a successful step keeps the count. -/
theorem Counted.step (h : Counted tr x.pre) (hst : SequencerStep x.pre x.event x.post)
    (hs : Succeeds x) : Counted (tr ++ [x]) x.post := by
  have hmoves : Moves x := moves_of_step hst
  cases hmoves with
  | setTrialID trialID he ht =>
    refine h.stays (by simp [stepBatches, doneMessage, he]) ?_ ?_ ?_ ?_ ?_ <;> rw [ht] <;> rfl
  | operationRequested op he ht =>
    rw [ht]
    exact (h.requested op).snoc (by simp [stepBatches, doneMessage, he])
  | rolledBack he =>
    simp [Succeeds, he] at hs
  | nothing e' he hd hc =>
    exact h.stays (stepBatches_of_none hd) hc.ops hc.unitContext hc.total
      hc.curOpIdx hc.towards
  | @stepped msg hd hk hw hc =>
    obtain ⟨q, length, hstep, hw'⟩ := workload_runStep hw hk
    have hbatches : stepBatches x = x.pre.batchesThisStep length := by
      simp only [stepBatches, hd, hk, if_true]
      rw [hw']
      rfl
    have hn : msg.workload.numBatches = x.pre.batchesThisStep length := by rw [hw']; rfl
    obtain ⟨hone, -, hend⟩ := batchesThisStep_bounds x.pre length
    have hequal : length.Positive x.pre.unitContext → (x.pre.completesTrain msg.workload.numBatches = true ↔
        x.pre.batchesTowardsCurrentOp + x.pre.batchesThisStep length =
          trainBatches length x.pre.unitContext) := by
      intro hpos
      have hnn := h.nonneg
      simp only [completesTrain, hstep.curOp, hn]
      exact hpos.equalWithinBatch_iff (by omega) (hend (h.within q length hstep.curOp hpos))
    have hcurOp := hc.curOp
    have htotal := hc.total
    rw [hn] at htotal
    split at hcurOp
    · rename_i hdone
      refine h.movesOn hc.ops hc.unitContext (hbatches ▸ htotal)
        (by simp [hstep.curOp]) hcurOp.1 hcurOp.2 fun q' length' hop hpos => ?_
      obtain ⟨-, rfl⟩ : q = q' ∧ length = length' := by simpa [hstep.curOp] using hop
      rw [hbatches]
      exact (hequal hpos).mp hdone
    · rename_i hpart
      have htow := hcurOp.2
      rw [hn] at htow
      refine h.trains hc.ops hc.unitContext (by omega) (hbatches ▸ htotal)
        hstep.curOp hcurOp.1 (hbatches ▸ htow) fun hpos => ?_
      rw [hbatches]
      exact lt_of_le_of_ne (hend (h.within q length hstep.curOp hpos)) (mt (hequal hpos).mpr hpart)
  | validated hd hk hw hc =>
    have h0 : stepBatches x = 0 := stepBatches_of_kind hd (by simp [hk])
    have hidx := hc.curOpIdx
    cases hat : x.pre.atValidate with
    | false =>
      rw [hat, if_neg Bool.false_ne_true, add_zero] at hidx
      exact h.stays h0 hc.ops hc.unitContext hc.total hidx hc.towards
    | true =>
      obtain ⟨q, hq⟩ := atValidate_iff.mp hat
      rw [hat, if_pos rfl] at hidx
      refine h.movesOn hc.ops hc.unitContext (by rw [h0, add_zero]; exact hc.total)
        (by simp [hq]) hidx ?_ (by simp [hq])
      exact hc.towards.trans (h.offTrain (by simp [hq]))
  | checkpointed hd hk metrics hm hc =>
    have h0 : stepBatches x = 0 := stepBatches_of_kind hd (by simp [hk])
    rcases hc.curOpIdx with hidx | ⟨⟨q, hq⟩, hidx⟩
    · exact h.stays h0 hc.ops hc.unitContext hc.total hidx hc.towards
    · refine h.movesOn hc.ops hc.unitContext (by rw [h0, add_zero]; exact hc.total)
        (by simp [hq]) hidx ?_ (by simp [hq])
      exact hc.towards.trans (h.offTrain (by simp [hq]))

/-- Run lemma: a run of successful steps keeps the count. -/
theorem Counted.run {tr' : List (SequencerEdge ι)} (h : Counted tr s)
    (hrun : Run SequencerStep s tr' t) (hs : ∀ x ∈ tr', Succeeds x) : Counted (tr ++ tr') t := by
  induction hrun generalizing tr with
  | nil => simpa using h
  | @cons s u t e tr' hst _ ih =>
    obtain ⟨hx, hs⟩ := List.forall_mem_cons.mp hs
    simpa using ih (h.step hst hx) hs

theorem counted_new (exp : Experiment) (globalBatchSize : ℤ) (first : Option Checkpoint) :
    Counted [] (newTrialWorkloadSequencer ι exp globalBatchSize first) := by
  refine ⟨le_rfl, rfl, le_rfl, rfl, fun _ _ => rfl, fun _ => rfl, fun q length hop => ?_,
    fun i hi => absurd hi (Nat.not_lt_zero i)⟩
  simp [curOp, newTrialWorkloadSequencer] at hop

/-- The context in which lengths are converted to batches. -/
def Experiment.unitContext (exp : Experiment) (globalBatchSize : ℤ) : UnitContext :=
  ⟨exp.config.searcherUnit, globalBatchSize, exp.config.recordsPerEpoch⟩

/-- A run leaves the configuration as it is. -/
structure Configured (exp : Experiment) (globalBatchSize : ℤ) (s : TrialWorkloadSequencer ι) :
    Prop where
  minValidationPeriod : s.minValidationPeriod = exp.config.minValidationPeriod
  minCheckpointPeriod : s.minCheckpointPeriod = exp.config.minCheckpointPeriod
  unitContext : s.unitContext = exp.unitContext globalBatchSize
  schedulingUnit : s.schedulingUnit = exp.config.schedulingUnit

variable {exp : Experiment} {globalBatchSize : ℤ}

theorem configured_new (first : Option Checkpoint) : Configured exp globalBatchSize
    (newTrialWorkloadSequencer ι exp globalBatchSize first) := ⟨rfl, rfl, rfl, rfl⟩

theorem Configured.noted {e : Option ExitedReason} (h : Configured exp globalBatchSize s)
    (hn : Noted e s t) : Configured exp globalBatchSize t where
  minValidationPeriod := hn.minValidationPeriod.trans h.minValidationPeriod
  minCheckpointPeriod := hn.minCheckpointPeriod.trans h.minCheckpointPeriod
  unitContext := hn.unitContext.trans h.unitContext
  schedulingUnit := hn.schedulingUnit.trans h.schedulingUnit

theorem configured_step (s : TrialWorkloadSequencer ι) (e : SequencerEvent ι)
    (t : TrialWorkloadSequencer ι) (h : Configured exp globalBatchSize s)
    (hst : SequencerStep s e t) : Configured exp globalBatchSize t := by
  cases moves_of_step hst with
  | setTrialID trialID he ht => exact (show t = _ from ht) ▸ ⟨h.1, h.2, h.3, h.4⟩
  | operationRequested op he ht => exact (show t = _ from ht) ▸ ⟨h.1, h.2, h.3, h.4⟩
  | rolledBack he ht => exact (show t = _ from ht) ▸ ⟨h.1, h.2, h.3, h.4⟩
  | nothing e' he hd hc => exact h.noted hc.toNoted
  | stepped hd hk hw hc => exact h.noted hc.toNoted
  | validated hd hk hw hc => exact h.noted hc.toNoted
  | checkpointed hd hk metrics hm hc => exact h.noted hc.toNoted

end Determined.Trial
