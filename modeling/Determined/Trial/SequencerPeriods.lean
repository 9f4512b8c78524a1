import Determined.Trial.SequencerBatches

/-! The validation and checkpoint periods of the sequencer, for periods of at least one batch.

    Both periods are treated alike (`Due`). A step handed out ends with the period at the latest,
    as none is handed out once the period is equal to the batches trained since: up to the end of
    the period the batches are equal to it at its end only. -/

namespace Determined.Trial
open Determined.Model Determined.Searcher Determined.Schemes TrialWorkloadSequencer

/-- What the periods make due. -/
inductive Due where | validation | checkpoint
  deriving DecidableEq, Repr

namespace Due

def kind : Due → Kind
  | validation => .computeValidationMetrics
  | checkpoint => .checkpointModel

/-- The batches trained since. -/
def since : Due → TrialWorkloadSequencerState → ℤ
  | validation, s => s.batchesSinceLastVal
  | checkpoint, s => s.batchesSinceLastCkpt

def period : Due → ExperimentConfig → Length
  | validation, config => config.minValidationPeriod
  | checkpoint, config => config.minCheckpointPeriod

end Due

variable {ι : Type} {s t : TrialWorkloadSequencer ι} {tr : List (SequencerEdge ι)}
  {x : SequencerEdge ι} {exp : Experiment} {globalBatchSize : ℤ} {due : Due}

/-- The batches since are not negative, and not more than the period, now and after a rollback. -/
structure Honoured (exp : Experiment) (globalBatchSize : ℤ) (due : Due)
    (s : TrialWorkloadSequencer ι) : Prop where
  configured : Configured exp globalBatchSize s
  nonneg : 0 ≤ due.since s.toTrialWorkloadSequencerState
  nonnegSnapshot : 0 ≤ due.since s.latestCheckpointSequencerSnapshot
  le : (due.period exp.config).AtLeastOneBatch (exp.unitContext globalBatchSize) →
    due.since s.toTrialWorkloadSequencerState ≤
      (due.period exp.config).toNearestBatch (exp.unitContext globalBatchSize)
  leSnapshot : (due.period exp.config).AtLeastOneBatch (exp.unitContext globalBatchSize) →
    due.since s.latestCheckpointSequencerSnapshot ≤
      (due.period exp.config).toNearestBatch (exp.unitContext globalBatchSize)

/-- A step is handed out before the period is reached, and ends with it at the latest. -/
theorem Honoured.step_le (h : Honoured exp globalBatchSize due s) {q : ι} {length : Length}
    (hstep : HandsOutStep s q length)
    (hperiod : (due.period exp.config).AtLeastOneBatch (exp.unitContext globalBatchSize)) :
    due.since s.toTrialWorkloadSequencerState + s.batchesThisStep length ≤
      (due.period exp.config).toNearestBatch (exp.unitContext globalBatchSize) := by
  have hne := hperiod.units_ne_zero
  have hle := h.le hperiod
  have hequal := hperiod.equalWithinBatch_iff hle
  have hreached : due.since s.toTrialWorkloadSequencerState ≠
      (due.period exp.config).toNearestBatch (exp.unitContext globalBatchSize) := by
    rw [Ne, ← hequal]
    cases due with
    | validation =>
      have hno := hstep.minValidationNeeded
      rw [minValidationNeeded, h.configured.minValidationPeriod, h.configured.unitContext] at hno
      have hne' : exp.config.minValidationPeriod.units ≠ 0 := hne
      simpa [Due.period, Due.since, hne'] using hno
    | checkpoint =>
      have hno := hstep.minCheckpointNeeded
      rw [minCheckpointNeeded, h.configured.minCheckpointPeriod, h.configured.unitContext] at hno
      have hne' : exp.config.minCheckpointPeriod.units ≠ 0 := hne
      simpa [Due.period, Due.since, hne'] using hno
  have huntil : s.batchesThisStep length ≤
      max ((due.period exp.config).toNearestBatch (exp.unitContext globalBatchSize) -
        due.since s.toTrialWorkloadSequencerState) 1 := by
    unfold batchesThisStep batchesUntilValNeeded batchesUntilCkptNeeded
    rw [h.configured.minValidationPeriod, h.configured.minCheckpointPeriod,
      h.configured.unitContext]
    cases due with
    | validation =>
      simp only [Due.period] at hne
      simp only [Due.period, Due.since, hne, if_false]
      omega
    | checkpoint =>
      simp only [Due.period] at hne
      simp only [Due.period, Due.since, hne, if_false]
      omega
  omega

/-- What a step does to the batches since. -/
theorem since_moves (due : Due) (h : Moves x) (hroll : x.event ≠ .rollBackSequencer) :
    due.since x.post.toTrialWorkloadSequencerState = if completes due.kind x then 0
      else due.since x.pre.toTrialWorkloadSequencerState + stepBatches x := by
  cases h with
  | setTrialID trialID he ht =>
    rw [ht]
    simp [completes, stepBatches, doneMessage, he, setTrialID]
  | operationRequested op he ht =>
    rw [ht]
    simp [completes, stepBatches, doneMessage, he, operationRequested]
  | rolledBack he => exact absurd he hroll
  | nothing e he hd hc =>
    cases due <;> simp [completes, stepBatches, hd, Due.since, hc.sinceLastVal, hc.sinceLastCkpt]
  | stepped hd hk hw hc =>
    cases due <;>
      simp [completes, stepBatches, hd, hk, Due.since, Due.kind, hc.sinceLastVal, hc.sinceLastCkpt]
  | validated hd hk hw hc =>
    cases due <;>
      simp [completes, stepBatches, hd, hk, Due.since, Due.kind, hc.sinceLastVal, hc.sinceLastCkpt]
  | checkpointed hd hk metrics hm hc =>
    cases due <;>
      simp [completes, stepBatches, hd, hk, Due.since, Due.kind, hc.sinceLastVal, hc.sinceLastCkpt]

/-- The snapshot is left alone, or taken of the state that is reached. -/
theorem snapshot_moves (h : Moves x) :
    x.post.latestCheckpointSequencerSnapshot = x.pre.latestCheckpointSequencerSnapshot ∨
      x.post.latestCheckpointSequencerSnapshot = x.post.toTrialWorkloadSequencerState := by
  cases h with
  | setTrialID trialID he ht => rw [ht]; exact .inl rfl
  | operationRequested op he ht => rw [ht]; exact .inl rfl
  | rolledBack he ht => rw [ht]; exact .inl rfl
  | nothing e he hd hc => exact .inl hc.snapshot
  | stepped hd hk hw hc => exact .inl hc.snapshot
  | checkpointed hd hk metrics hm hc => exact .inr hc.snapshot
  | validated hd hk hw hc =>
    have hsnap := hc.snapshot
    split at hsnap
    · exact .inr hsnap
    · exact .inl hsnap

theorem stepBatches_of_moves (h : Moves x) : stepBatches x = 0 ∨
    ∃ q length, HandsOutStep x.pre q length ∧ stepBatches x = x.pre.batchesThisStep length := by
  cases h with
  | setTrialID trialID he ht => simp [stepBatches, doneMessage, he]
  | operationRequested op he ht => simp [stepBatches, doneMessage, he]
  | rolledBack he ht => simp [stepBatches, doneMessage, he]
  | nothing e he hd hc => exact .inl (stepBatches_of_none hd)
  | validated hd hk hw hc => exact .inl (stepBatches_of_kind hd (by simp [hk]))
  | checkpointed hd hk metrics hm hc => exact .inl (stepBatches_of_kind hd (by simp [hk]))
  | stepped hd hk hw hc =>
    obtain ⟨q, length, hstep, hw'⟩ := workload_runStep hw hk
    refine .inr ⟨q, length, hstep, ?_⟩
    simp only [stepBatches, hd, hk, if_true]
    rw [hw']
    rfl

/-! ### Runs -/

theorem honoured_new (due : Due) (first : Option Checkpoint) :
    Honoured exp globalBatchSize due (newTrialWorkloadSequencer ι exp globalBatchSize first) := by
  have h0 : due.since (newTrialWorkloadSequencer ι exp globalBatchSize
      first).toTrialWorkloadSequencerState = 0 := by cases due <;> rfl
  refine ⟨configured_new first, h0.ge, h0.ge, fun hperiod => ?_, fun hperiod => ?_⟩
  · rw [h0]
    exact zero_le_one.trans hperiod.batches
  · exact h0.le.trans (zero_le_one.trans hperiod.batches)

/-- Step lemma: rolling back restores batches that were not more than the period before. -/
theorem honoured_step (s : TrialWorkloadSequencer ι) (e : SequencerEvent ι)
    (t : TrialWorkloadSequencer ι) (h : Honoured exp globalBatchSize due s)
    (hst : SequencerStep s e t) : Honoured exp globalBatchSize due t := by
  have hconf := configured_step s e t h.configured hst
  have hmoves : Moves (⟨s, e, t⟩ : SequencerEdge ι) := moves_of_step hst
  by_cases hroll : e = .rollBackSequencer
  · subst hroll
    obtain ⟨r, hst⟩ := hst
    cases hst
    exact ⟨hconf, h.nonnegSnapshot, h.nonnegSnapshot, h.leSnapshot, h.leSnapshot⟩
  · have hsince := since_moves due hmoves hroll
    have hbatches := stepBatches_of_moves hmoves
    have hnonneg : 0 ≤ due.since t.toTrialWorkloadSequencerState := by
      have hnn := h.nonneg
      rw [hsince]
      split_ifs
      · exact le_rfl
      · rcases hbatches with h0 | ⟨q, length, -, hn⟩
        · rw [h0, add_zero]
          exact hnn
        · have := batchesThisStep_pos (s := s) length
          rw [hn]
          dsimp only at hnn ⊢
          omega
    have hle : (due.period exp.config).AtLeastOneBatch (exp.unitContext globalBatchSize) →
        due.since t.toTrialWorkloadSequencerState ≤
          (due.period exp.config).toNearestBatch (exp.unitContext globalBatchSize) := by
      intro hperiod
      rw [hsince]
      split_ifs
      · exact zero_le_one.trans hperiod.batches
      · rcases hbatches with h0 | ⟨q, length, hstep, hn⟩
        · rw [h0, add_zero]
          exact h.le hperiod
        · rw [hn]
          exact h.step_le hstep hperiod
    rcases snapshot_moves hmoves with hsnap | hsnap
    · dsimp only at hsnap
      exact ⟨hconf, hnonneg, hsnap ▸ h.nonnegSnapshot, hle, hsnap ▸ h.leSnapshot⟩
    · dsimp only at hsnap
      exact ⟨hconf, hnonneg, hsnap ▸ hnonneg, hle, hsnap ▸ hle⟩

/-- In a stretch of a run without what is due, the batches since count those of its steps. -/
theorem since_run (h : Run SequencerStep s tr t)
    (hno : ∀ x ∈ tr, x.event ≠ .rollBackSequencer ∧ completes due.kind x = false) :
    due.since t.toTrialWorkloadSequencerState =
      due.since s.toTrialWorkloadSequencerState + trainedBatches tr := by
  induction h with
  | nil => simp [trainedBatches]
  | cons hst _ ih =>
    obtain ⟨⟨hroll, hnone⟩, hno⟩ := List.forall_mem_cons.mp hno
    have hsince := since_moves due (moves_of_step hst) hroll
    rw [hnone, if_neg Bool.false_ne_true] at hsince
    rw [ih hno, hsince, trainedBatches, trainedBatches, List.map_cons, List.sum_cons, add_assoc]

/-- CORRECT: with a period of at least one batch, the batches trained since the last validation, or
    the last checkpoint, are never more than the period truncated to batches, as the sequencer
    counts them after rollbacks and as the run trains them in between. Once they reach it no
    `RUN_STEP` is handed out. -/
theorem periods_honoured (exp : Experiment) (globalBatchSize : ℤ) (first : Option Checkpoint)
    {tr : List (SequencerEdge ι)} {t : TrialWorkloadSequencer ι}
    (h : Run SequencerStep (newTrialWorkloadSequencer ι exp globalBatchSize first) tr t) (due : Due)
    (hperiod : (due.period exp.config).AtLeastOneBatch (exp.unitContext globalBatchSize)) :
    due.since t.toTrialWorkloadSequencerState ≤
      (due.period exp.config).toNearestBatch (exp.unitContext globalBatchSize) ∧
    (∀ tr₁ tr₂, tr = tr₁ ++ tr₂ →
      (∀ x ∈ tr₂, x.event ≠ .rollBackSequencer ∧ completes due.kind x = false) →
      trainedBatches tr₂ ≤
        (due.period exp.config).toNearestBatch (exp.unitContext globalBatchSize)) ∧
    (due.since t.toTrialWorkloadSequencerState =
        (due.period exp.config).toNearestBatch (exp.unitContext globalBatchSize) →
      ∀ w, t.workload = .ok w → w.kind ≠ .runStep) := by
  obtain ⟨-, hend⟩ := h.invariant honoured_step (honoured_new due first)
  refine ⟨hend.le hperiod, fun tr₁ tr₂ heq hno => ?_, fun hreached w hw hk => ?_⟩
  · subst heq
    obtain ⟨u, hu, hrest⟩ := h.of_append
    obtain ⟨-, hmid⟩ := hu.invariant honoured_step (honoured_new due first)
    have hsince := since_run hrest hno
    have hnn := hmid.nonneg
    have hle := hend.le hperiod
    omega
  · obtain ⟨q, length, hstep, -⟩ := workload_runStep hw hk
    have hle := hend.step_le hstep hperiod
    have hpos := batchesThisStep_pos (s := t) length
    omega

/-- A validation period of 100 batches that is reached in one step. -/
theorem periods_honoured_hundred : ∃ tr t,
    Run SequencerStep (newTrialWorkloadSequencer ℕ (periodicExperiment 100) 64 none) tr t ∧
      tr.map (·.event) = trainThenValidate ++ [stepDone, validationDone, .rollBackSequencer,
        stepDone] ∧
      t.batchesSinceLastVal = 100 ∧ ∀ w, t.workload = .ok w → w.kind ≠ .runStep := by
  obtain ⟨tr, t, hrun, hev, hsince⟩ := Run.exists_of_exec sequencerStep_of_next
    (fun r => r.2.batchesSinceLastVal)
    (show (exec sequencerNext (newTrialWorkloadSequencer ℕ (periodicExperiment 100) 64 none)
      (trainThenValidate ++ [stepDone, validationDone, .rollBackSequencer, stepDone])).map _ =
        some 100 by decide)
  exact ⟨tr, t, hrun, hev, hsince, (periods_honoured _ _ _ hrun .validation
    ⟨by decide, by decide⟩).2.2 hsince⟩

end Determined.Trial
