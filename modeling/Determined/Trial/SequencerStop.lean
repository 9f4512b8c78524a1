import Determined.Trial.SequencerRollback

/-! A graceful stop: a workload exits because the user canceled the trial or its hyperparameters are
    invalid, and only the checkpoint of what is unsaved may follow.

    `upToDate` asks for that checkpoint, but not of a sequencer that is past its last operation. A
    `Train` leaves the `Validate` behind it to be done, so that takes a validation completing the
    last `Validate` with batches unsaved, as one that `min_validation_period` asks for may. -/

namespace Determined.Trial
open Determined.Model Determined.Searcher Determined.Schemes TrialWorkloadSequencer

variable {ι : Type} {s t u : TrialWorkloadSequencer ι} {tr : List (SequencerEdge ι)}
  {x : SequencerEdge ι} {msg : CompletedMessage} {fut : Option (Option Bool)}
  {r : Option (Runnable ι × OpMetrics)}

/-- Every `Train` is followed by a `Validate`. -/
def TrainsValidated (ops : List (Runnable ι)) : Prop :=
  ∀ i q length, ops[i]? = some (.train q length) → ∃ q', ops[i + 1]? = some (.validate q')

/-- Nothing is rolled back. A trial that is exiting early does not go on after a rollback. -/
def GoesOn (x : SequencerEdge ι) : Prop :=
  match x.event with
  | .rollBackSequencer => False
  | _ => True

instance : DecidablePred (GoesOn (ι := ι))
  | ⟨_, .rollBackSequencer, _⟩ => inferInstanceAs (Decidable False)
  | ⟨_, .setTrialID _, _⟩ | ⟨_, .operationRequested _, _⟩ | ⟨_, .workloadCompleted _ _, _⟩
  | ⟨_, .completeCachedCheckpoints, _⟩ => inferInstanceAs (Decidable True)

/-- The sequencer was told to stop, and has an operation left as long as batches are unsaved. -/
structure Stopping (s : TrialWorkloadSequencer ι) : Prop where
  exitingEarly : s.exitingEarly = true
  gracefulStop : s.gracefulStop = true
  validatesFirst : ValidatesFirst s
  opsLeft : s.batchesSinceLastCkpt ≠ 0 → s.curOpIdx < s.ops.length

theorem Stopping.upToDate_iff (h : Stopping s) :
    s.upToDate = true ↔ s.batchesSinceLastCkpt = 0 := by
  have hleft := h.opsLeft
  simp only [upToDate, postGracefulStopCheckpointNeeded, h.exitingEarly, h.gracefulStop,
    Bool.true_and, Bool.or_eq_true, beq_iff_eq, Bool.not_eq_true', bne_eq_false_iff_eq]
  constructor
  · rintro (hlen | h0)
    · by_contra hne
      have hlt := hleft hne
      omega
    · exact h0
  · exact .inr

/-- A checkpoint is all that a stopping sequencer hands out. -/
theorem Stopping.workload_kind {w : Workload} (h : Stopping s) (hw : s.workload = .ok w) :
    w.kind = .checkpointModel := by
  rw [(workload_of_exitingEarly h.validatesFirst h.exitingEarly hw).2]
  rfl

theorem Stopping.noted {e : Option ExitedReason} (h : Stopping s) (hn : Noted e s t)
    (hfirst : ValidatesFirst t) (hleft : t.batchesSinceLastCkpt ≠ 0 → t.curOpIdx < t.ops.length) :
    Stopping t where
  exitingEarly := by rw [hn.exitingEarly, h.exitingEarly, Bool.true_or]
  gracefulStop := by rw [hn.gracefulStop, h.gracefulStop, Bool.true_or]
  validatesFirst := hfirst
  opsLeft := hleft

/-- Step lemma: the sequencer keeps stopping, and has nothing unsaved once a workload completes. -/
theorem Stopping.step {e : SequencerEvent ι} (h : Stopping s) (hst : SequencerStep s e t)
    (hon : GoesOn ⟨s, e, t⟩) : Stopping t ∧
      (s.batchesSinceLastCkpt = 0 ∨ (doneMessage ⟨s, e, t⟩).isSome →
        t.batchesSinceLastCkpt = 0) := by
  have hfirst := validatesFirst_step s e t h.validatesFirst hst
  cases moves_of_step hst with
  | setTrialID trialID he ht =>
    obtain rfl : t = s.setTrialID trialID := ht
    refine ⟨⟨h.exitingEarly, h.gracefulStop, hfirst, h.opsLeft⟩, ?_⟩
    rintro (h0 | hd)
    · exact h0
    · obtain rfl : e = _ := he
      simp [doneMessage] at hd
  | operationRequested op he ht =>
    obtain rfl : t = s.operationRequested op := ht
    refine ⟨⟨h.exitingEarly, h.gracefulStop, hfirst, fun hne => ?_⟩, ?_⟩
    · have hlt := h.opsLeft hne
      simp only [operationRequested, List.length_append]
      omega
    · rintro (h0 | hd)
      · exact h0
      · obtain rfl : e = _ := he
        simp [doneMessage] at hd
  | rolledBack he =>
    obtain rfl : e = _ := he
    exact hon.elim
  | nothing e' he hd hc =>
    refine ⟨h.noted hc.toNoted hfirst ?_, ?_⟩
    · rw [hc.sinceLastCkpt, hc.curOpIdx, hc.ops]
      exact h.opsLeft
    · rintro (h0 | hsome)
      · exact hc.sinceLastCkpt.trans h0
      · rw [hd] at hsome
        cases hsome
  | stepped hd hk hw hc =>
    have hckpt := h.workload_kind hw
    rw [hk] at hckpt
    cases hckpt
  | validated hd hk hw hc =>
    have hckpt := h.workload_kind hw
    rw [hk] at hckpt
    cases hckpt
  | checkpointed hd hk metrics hm hc =>
    exact ⟨h.noted hc.toNoted hfirst fun hne => absurd hc.sinceLastCkpt hne,
      fun _ => hc.sinceLastCkpt⟩

/-- Run lemma: the same of every run that is not rolled back. -/
theorem Stopping.run (h : Stopping s) (hrun : Run SequencerStep s tr t)
    (hon : ∀ x ∈ tr, GoesOn x) : Stopping t ∧
      (s.batchesSinceLastCkpt = 0 ∨ (∃ x ∈ tr, (doneMessage x).isSome) →
        t.batchesSinceLastCkpt = 0) := by
  induction hrun with
  | nil => exact ⟨h, by simp⟩
  | @cons s u t e tr hst _ ih =>
    obtain ⟨hx, hon⟩ := List.forall_mem_cons.mp hon
    obtain ⟨hu, hstep⟩ := h.step hst hx
    obtain ⟨ht, hrun⟩ := ih hu hon
    refine ⟨ht, fun hor => hrun ?_⟩
    rcases hor with h0 | ⟨x, hx, hdone⟩
    · exact .inl (hstep (.inl h0))
    · rcases List.mem_cons.mp hx with rfl | hx
      · exact .inl (hstep (.inr hdone))
      · exact .inr ⟨x, hx, hdone⟩

/-- The message completes the last operation, a `Validate`, with batches unsaved. -/
def UnsavedLastValidate (s : TrialWorkloadSequencer ι) (msg : CompletedMessage) : Prop :=
  msg.workload.kind = .computeValidationMetrics ∧ s.atValidate ∧ s.batchesSinceLastCkpt ≠ 0 ∧
    s.curOpIdx + 1 = s.ops.length

instance (s : TrialWorkloadSequencer ι) (msg : CompletedMessage) :
    Decidable (UnsavedLastValidate s msg) := by
  unfold UnsavedLastValidate
  infer_instance

theorem not_fails_of_stopsGracefully {e : Option ExitedReason} (h : stopsGracefully e = true) :
    ¬ Fails e := by
  rcases e with _ | _ | _ | _ | _ <;> simp_all [stopsGracefully, Fails]

/-- A graceful stop leaves an operation as long as batches are unsaved, unless they are those of the
    last `Validate`. -/
theorem opsLeft_iff (h : s.workloadCompleted msg fut = .ok (t, r))
    (hstop : stopsGracefully msg.exitedReason = true) (hops : TrainsValidated s.ops)
    (hidx : s.curOpIdx ≤ s.ops.length) :
    (t.batchesSinceLastCkpt ≠ 0 → t.curOpIdx < t.ops.length) ↔ ¬ UnsavedLastValidate s msg := by
  have hleft : ∀ {w}, s.workload = .ok w → s.curOpIdx < s.ops.length := fun hw => by
    have hup := upToDate_of_workload hw
    simp only [upToDate, Bool.or_eq_false_iff, beq_eq_false_iff_ne] at hup
    omega
  cases (completion_of_workloadCompleted h).effect with
  | failed hf => exact absurd hf (not_fails_of_stopsGracefully hstop)
  | stepped hf hk hw hc =>
    simp only [UnsavedLastValidate, hk, reduceCtorEq, false_and, not_false_eq_true, iff_true]
    intro _
    have hcur := hc.curOp
    rw [hc.ops]
    split at hcur
    · -- the `Validate` behind the `Train` is left
      obtain ⟨q, length, hstep, -⟩ := workload_runStep hw hk
      obtain ⟨q', hval⟩ := hops _ q length hstep.curOp
      rw [hcur.1]
      exact (List.getElem?_eq_some_iff.mp hval).1
    · rw [hcur.1]
      exact hleft hw
  | validated hf hk hw hc =>
    have hlt := hleft hw
    rw [hc.sinceLastCkpt, hc.curOpIdx, hc.ops]
    simp only [UnsavedLastValidate, hk, true_and]
    cases hat : s.atValidate with
    | false => simp [hlt]
    | true =>
      simp only [if_true, true_and, ne_eq, not_and]
      exact forall_congr' fun _ => by omega
  | checkpointed hf hk metrics hm hc =>
    simp only [UnsavedLastValidate, hk, reduceCtorEq, false_and, not_false_eq_true, iff_true]
    exact fun hne => absurd hc.sinceLastCkpt hne

/-- From a state on, whatever happens short of a rollback: only a checkpoint is handed out, nothing
    is once a workload has completed, and a sequencer that is up to date has nothing unsaved. -/
def StopsCleanly (t : TrialWorkloadSequencer ι) : Prop :=
  ∀ tr u, Run SequencerStep t tr u → (∀ x ∈ tr, GoesOn x) →
    (∀ w, u.workload = .ok w → w.kind = .checkpointModel) ∧
    ((∃ x ∈ tr, (doneMessage x).isSome) → u.upToDate = true) ∧
    (u.upToDate = true → u.batchesSinceLastCkpt = 0)

/-- CORRECT: a reachable sequencer whose every `Train` is followed by a `Validate` stops cleanly
    after a workload that exits at somebody's request, exactly if that is no validation completing
    the last operation with batches unsaved. -/
theorem stops_cleanly_iff (exp : Experiment) (globalBatchSize : ℤ) (first : Option Checkpoint)
    (hrun : Run SequencerStep (newTrialWorkloadSequencer ι exp globalBatchSize first) tr s)
    (hops : TrainsValidated s.ops) (hstop : stopsGracefully msg.exitedReason = true)
    (h : s.workloadCompleted msg fut = .ok (t, r)) :
    StopsCleanly t ↔ ¬ UnsavedLastValidate s msg := by
  obtain ⟨-, hsnap, hidx⟩ := hrun.invariant
    (I := fun s => SnapshotInv s ∧ s.curOpIdx ≤ s.ops.length)
    (fun s e t hs hst => ⟨snapshotInv_step s e t hs.1 hst, idx_le_step s e t hs.1 hs.2 hst⟩)
    ⟨snapshotInv_new _ _ _, le_rfl⟩
  obtain ⟨-, hfirst⟩ := hrun.invariant validatesFirst_step (validatesFirst_new _ _ _)
  have hst : SequencerStep s (.workloadCompleted msg fut) t := ⟨r, h⟩
  rw [← opsLeft_iff h hstop hops hidx]
  constructor
  · intro hclean hne
    by_contra hlen
    have hle := idx_le_step s _ t hsnap hidx hst
    obtain ⟨-, -, hsaved⟩ := hclean [] t (.nil t) (by simp)
    refine hne (hsaved ?_)
    simp only [upToDate, Bool.or_eq_true, beq_iff_eq]
    omega
  · intro hleft tr u htr hon
    have hnoted := (completion_of_workloadCompleted h).effect.noted
    have hexit : msg.exitedReason.isSome = true := by
      cases he : msg.exitedReason with
      | none => simp [he, stopsGracefully] at hstop
      | some e => rfl
    have hstopping : Stopping t :=
      ⟨by rw [hnoted.exitingEarly, hexit, Bool.or_true],
        by rw [hnoted.gracefulStop, hstop, Bool.or_true],
        validatesFirst_step s _ t hfirst hst, hleft⟩
    obtain ⟨hu, hdone⟩ := hstopping.run htr hon
    exact ⟨fun w hw => hu.workload_kind hw, fun hx => hu.upToDate_iff.mpr (hdone (.inr hx)),
      hu.upToDate_iff.mp⟩

/-- One `Train` of 100 batches, and its `Validate`. -/
def trainedAndValidated : List (Runnable ℕ) := [.train 0 (newLengthInBatches 100), .validate 0]

theorem trainsValidated_trainedAndValidated : TrainsValidated trainedAndValidated := by
  intro i q length hop
  rcases i with _ | _ | i
  · exact ⟨0, rfl⟩
  · cases hop
  · cases hop

/-- The step is completed by a user who cancels the trial. -/
def canceledStep : CompletedMessage := ⟨⟨.runStep, 1, 1, 1, 100, 0⟩, some .userCanceled, none, none⟩

def canceledValidation : CompletedMessage :=
  ⟨⟨.computeValidationMetrics, 1, 1, 1, 0, 100⟩, some .userCanceled, none, some ⟨1, []⟩⟩

/-- Canceled in a step, the trial stops cleanly. -/
theorem stops_cleanly_after_step : ∃ tr s t r,
    Run SequencerStep (newTrialWorkloadSequencer ℕ (periodicExperiment 100) 64 none) tr s ∧
      tr.map (·.event) = trainThenValidate ∧
      s.workloadCompleted canceledStep (some none) = .ok (t, r) ∧ StopsCleanly t := by
  obtain ⟨tr, s, hrun, hev, hdone⟩ := Run.exists_of_exec sequencerStep_of_next
    (fun r => decide (r.2.ops = trainedAndValidated ∧ ¬ UnsavedLastValidate r.2 canceledStep ∧
      (r.2.workloadCompleted canceledStep (some none)).toOption.isSome))
    (show (exec sequencerNext (newTrialWorkloadSequencer ℕ (periodicExperiment 100) 64 none)
      trainThenValidate).map _ = some true by decide)
  obtain ⟨hops, hsaved, hok⟩ := of_decide_eq_true hdone
  obtain ⟨⟨t, r⟩, h⟩ := Option.isSome_iff_exists.mp hok
  have h : s.workloadCompleted canceledStep (some none) = .ok (t, r) := by
    cases hs : s.workloadCompleted canceledStep (some none) with
    | error f => rw [hs] at h; cases h
    | ok p => rw [hs] at h; cases h; rfl
  exact ⟨tr, s, t, r, hrun, hev, h, (stops_cleanly_iff _ _ _ hrun
    (hops ▸ trainsValidated_trainedAndValidated) rfl h).mpr hsaved⟩

/-- Canceled in the validation that the validation period asks for, the sequencer reports itself up
    to date with the batches of the only step unsaved. -/
theorem stops_with_batches_unsaved : ∃ tr s t r,
    Run SequencerStep (newTrialWorkloadSequencer ℕ (periodicExperiment 100) 64 none) tr s ∧
      tr.map (·.event) = trainThenValidate ++ [stepDone] ∧ TrainsValidated s.ops ∧
      s.workloadCompleted canceledValidation (some (some true)) = .ok (t, r) ∧
      t.upToDate = true ∧ t.batchesSinceLastCkpt = 100 ∧ ¬ StopsCleanly t := by
  obtain ⟨tr, s, hrun, hev, hdone⟩ := Run.exists_of_exec sequencerStep_of_next
    (fun r => decide (r.2.ops = trainedAndValidated ∧
      ((r.2.workloadCompleted canceledValidation (some (some true))).toOption.map fun p =>
        (p.1.upToDate, p.1.batchesSinceLastCkpt)) = some (true, 100)))
    (show (exec sequencerNext (newTrialWorkloadSequencer ℕ (periodicExperiment 100) 64 none)
      (trainThenValidate ++ [stepDone])).map _ = some true by decide)
  obtain ⟨hops, hok⟩ := of_decide_eq_true hdone
  cases h : s.workloadCompleted canceledValidation (some (some true)) with
  | error f => rw [h] at hok; cases hok
  | ok p =>
    obtain ⟨t, r⟩ := p
    rw [h] at hok
    obtain ⟨hup, hbatches⟩ : t.upToDate = true ∧ t.batchesSinceLastCkpt = 100 := by
      simpa [Except.toOption] using hok
    refine ⟨tr, s, t, r, hrun, hev, hops ▸ trainsValidated_trainedAndValidated, h, hup, hbatches,
      fun hclean => ?_⟩
    obtain ⟨-, -, hsaved⟩ := hclean [] t (.nil t) (by simp)
    rw [hsaved hup] at hbatches
    cases hbatches

end Determined.Trial
