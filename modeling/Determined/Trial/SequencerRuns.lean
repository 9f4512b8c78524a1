import Determined.Trial.Sequencer

/-! Runs of the trial workload sequencer, and what its snapshot protects.

    A run is any order of requested operations, completion messages the sequencer accepts, cached
    checkpoints and failures followed by a rollback. `Completion` is the inversion of
    `workloadCompleted`: one case per kind of workload, and one for a failing exit. The main result,
    `completion_backed_iff`, says exactly when a run can be rolled back without reporting an
    operation twice: every validation that completes a `Validate` has to find nothing unsaved. The
    code comment promises that ("always checkpoint before completing any searcher operations"), but
    `workload` hands out the validation of `min_validation_period` before it looks at the
    operation, so a period that elapses together with a `Train` completes the `Validate` behind it
    unsaved (`validate_reported_twice`). -/

namespace Determined.Trial
open Determined.Model Determined.Searcher Determined.Schemes

namespace TrialWorkloadSequencer

variable {ι : Type} {s t : TrialWorkloadSequencer ι} {msg : CompletedMessage}
  {fut : Option (Option Bool)} {r : Option (Runnable ι × OpMetrics)}

/-- The exit reasons after which the workload's results are discarded. -/
def Fails : Option ExitedReason → Prop
  | some .errored | some (.other _) => True
  | none | some .userCanceled | some .invalidHP => False

instance : DecidablePred Fails
  | some .errored | some (.other _) => inferInstanceAs (Decidable True)
  | none | some .userCanceled | some .invalidHP => inferInstanceAs (Decidable False)

/-- Whether the current operation is a `Validate`. -/
def atValidate (s : TrialWorkloadSequencer ι) : Bool :=
  match s.curOp with
  | some (.validate _) => true
  | _ => false

theorem atValidate_iff : s.atValidate = true ↔ ∃ q, s.curOp = some (.validate q) := by
  unfold atValidate
  split
  · rename_i q h; simp [h]
  · rename_i h; simpa using h

/-- What an accepted completion message does: one case per kind of workload. -/
inductive Completion (s : TrialWorkloadSequencer ι) (msg : CompletedMessage)
    (fut : Option (Option Bool)) :
    TrialWorkloadSequencer ι → Option (Runnable ι × OpMetrics) → Prop
  | failed (hf : Fails msg.exitedReason) :
      Completion s msg fut (s.noteExit msg.exitedReason) none
  | runStep (hf : ¬ Fails msg.exitedReason) (hk : msg.workload.kind = .runStep)
      (hw : s.workload = .ok msg.workload) :
      Completion s msg fut ((s.noteExit msg.exitedReason).runStepCompleted msg).1
        (((s.noteExit msg.exitedReason).runStepCompleted msg).2.map (·, .none))
  | checkpoint {t : TrialWorkloadSequencer ι} {r : Option (Runnable ι × OpMetrics)}
      (hf : ¬ Fails msg.exitedReason) (hk : msg.workload.kind = .checkpointModel)
      (hc : (s.noteExit msg.exitedReason).checkpointModelCompleted msg = .ok (t, r)) :
      Completion s msg fut t r
  | validation {t : TrialWorkloadSequencer ι} {r : Option (Runnable ι × OpMetrics)}
      (hf : ¬ Fails msg.exitedReason) (hk : msg.workload.kind = .computeValidationMetrics)
      (hw : s.workload = .ok msg.workload)
      (hc : (s.noteExit msg.exitedReason).computeValidationMetricsCompleted msg fut = .ok (t, r)) :
      Completion s msg fut t r

/-- Only a checkpoint is accepted unless it is the workload the sequencer asks for. -/
theorem workload_of_admits (h : s.admits msg = .ok ⟨⟩) (hk : msg.workload.kind ≠ .checkpointModel) :
    s.workload = .ok msg.workload := by
  unfold admits at h
  rw [if_neg hk] at h
  split at h
  · cases h
  · obtain ⟨w, hw, h⟩ := bind_eq_ok.mp h
    split at h
    · rename_i hor
      rw [hor.resolve_right hk]; exact wrap_eq_ok.mp hw
    · cases h

theorem completion_of_workloadCompleted (h : s.workloadCompleted msg fut = .ok (t, r)) :
    Completion s msg fut t r := by
  obtain ⟨⟨⟩, ha, h⟩ := bind_eq_ok.mp h
  split at h
  · rename_i he
    cases h
    exact .failed (by rw [he]; trivial)
  · rename_i he
    cases h
    exact .failed (by rw [he]; trivial)
  -- for the reasons that do not fail the trial, the kind of the workload decides
  all_goals
    rename_i he
    have hf : ¬ Fails msg.exitedReason := by simp [he, Fails]
    split at h
    · rename_i hk
      cases h
      exact .runStep hf hk (workload_of_admits ha (by simp [hk]))
    · rename_i hk
      exact .checkpoint hf hk h
    · rename_i hk
      exact .validation hf hk (workload_of_admits ha (by simp [hk])) h
    · cases h

/-! ### What each handler does to the operation index and the snapshot -/

@[simp] theorem noteExit_ops (e : Option ExitedReason) : (s.noteExit e).ops = s.ops := by
  unfold noteExit; split <;> rfl

@[simp] theorem noteExit_curOpIdx (e : Option ExitedReason) :
    (s.noteExit e).curOpIdx = s.curOpIdx := by
  unfold noteExit; split <;> rfl

@[simp] theorem noteExit_snapshot (e : Option ExitedReason) :
    (s.noteExit e).latestCheckpointSequencerSnapshot = s.latestCheckpointSequencerSnapshot := by
  unfold noteExit; split <;> rfl

@[simp] theorem noteExit_batchesSinceLastCkpt (e : Option ExitedReason) :
    (s.noteExit e).batchesSinceLastCkpt = s.batchesSinceLastCkpt := by
  unfold noteExit; split <;> rfl

@[simp] theorem noteExit_cachedCheckpoints (e : Option ExitedReason) :
    (s.noteExit e).cachedCheckpoints = s.cachedCheckpoints := by
  unfold noteExit; split <;> rfl

@[simp] theorem noteExit_curOp (e : Option ExitedReason) : (s.noteExit e).curOp = s.curOp := by
  simp [curOp]

/-- How a call moves the operation index: not at all, or past the current operation, which it then
    reports. -/
structure Advances (s t : TrialWorkloadSequencer ι) (op : Option (Runnable ι)) : Prop where
  ops : t.ops = s.ops
  idx : (op = none ∧ t.curOpIdx = s.curOpIdx) ∨
    (op ≠ none ∧ op = s.curOp ∧ t.curOpIdx = s.curOpIdx + 1)

theorem Advances.le {op : Option (Runnable ι)} (h : Advances s t op) : s.curOpIdx ≤ t.curOpIdx := by
  rcases h.idx with ⟨-, h⟩ | ⟨-, -, h⟩ <;> omega

theorem runStepCompleted_advances (s : TrialWorkloadSequencer ι) (msg : CompletedMessage) :
    Advances s (s.runStepCompleted msg).1 (s.runStepCompleted msg).2 := by
  unfold runStepCompleted
  split
  · rename_i q length hop
    split
    · exact ⟨rfl, .inr ⟨by simp, hop.symm, rfl⟩⟩
    · exact ⟨rfl, .inl ⟨rfl, rfl⟩⟩
  · exact ⟨rfl, .inl ⟨rfl, rfl⟩⟩

/-- A completed step never touches the snapshot. -/
@[simp] theorem runStepCompleted_snapshot (s : TrialWorkloadSequencer ι) (msg : CompletedMessage) :
    (s.runStepCompleted msg).1.latestCheckpointSequencerSnapshot =
      s.latestCheckpointSequencerSnapshot := by
  unfold runStepCompleted
  split
  · split <;> rfl
  · rfl

@[simp] theorem runStepCompleted_cachedCheckpoints (s : TrialWorkloadSequencer ι)
    (msg : CompletedMessage) :
    (s.runStepCompleted msg).1.cachedCheckpoints = s.cachedCheckpoints := by
  unfold runStepCompleted
  split
  · split <;> rfl
  · rfl

/-- The only operation a completed step completes is a `Train`. -/
theorem runStepCompleted_op {op : Runnable ι} (h : (s.runStepCompleted msg).2 = some op) :
    ∃ q length, op = .train q length := by
  unfold runStepCompleted at h
  split at h
  · split at h
    · cases h; exact ⟨_, _, rfl⟩
    · cases h
  · cases h

/-- A completed checkpoint snapshots the state it leaves, which has nothing unsaved. -/
theorem checkpointModelCompleted_spec (h : s.checkpointModelCompleted msg = .ok (t, r)) :
    Advances s t (r.map (·.1)) ∧
      t.latestCheckpointSequencerSnapshot = t.toTrialWorkloadSequencerState ∧
      t.batchesSinceLastCkpt = 0 ∧
      (t.cachedCheckpoints = s.cachedCheckpoints ∨
        t.cachedCheckpoints = s.cachedCheckpoints.insert msg.workload msg) := by
  unfold checkpointModelCompleted at h
  split at h
  · cases h
  · split at h
    · cases h; exact ⟨⟨rfl, .inl ⟨rfl, rfl⟩⟩, rfl, rfl, .inr rfl⟩
    · split at h
      · rename_i hop
        cases h; exact ⟨⟨rfl, .inr ⟨by simp, hop.symm, rfl⟩⟩, rfl, rfl, .inl rfl⟩
      · cases h; exact ⟨⟨rfl, .inl ⟨rfl, rfl⟩⟩, rfl, rfl, .inr rfl⟩

/-- A completed validation snapshots the state it leaves exactly when nothing is unsaved. -/
theorem computeValidationMetricsCompleted_spec
    (h : s.computeValidationMetricsCompleted msg fut = .ok (t, r)) :
    Advances s t (r.map (·.1)) ∧
      t.latestCheckpointSequencerSnapshot = (if s.batchesSinceLastCkpt = 0
        then t.toTrialWorkloadSequencerState else s.latestCheckpointSequencerSnapshot) ∧
      t.cachedCheckpoints = s.cachedCheckpoints ∧
      (∀ op, r.map (·.1) = some op ↔ s.curOp = some op ∧ ∃ q, op = .validate q) := by
  obtain ⟨wanted, -, h⟩ := bind_eq_ok.mp h
  split at h
  · rename_i q hq
    cases h
    refine ⟨⟨by simp [nextOp, countValidation], .inr ⟨by simp, by simp [hq], ?_⟩⟩, ?_, ?_, ?_⟩
    · simp [nextOp, countValidation]
    · simp [nextOp, countValidation]
    · simp [nextOp, countValidation]
    · intro op
      simp only [Option.map_some, hq]
      exact ⟨fun h => ⟨h, q, (Option.some.inj h).symm⟩, And.left⟩
  · rename_i hq
    cases h
    refine ⟨⟨by simp [countValidation], .inl ⟨rfl, ?_⟩⟩, ?_, ?_, ?_⟩
    · simp [countValidation]
    · simp [countValidation]
    · simp [countValidation]
    · rintro op
      simp only [Option.map_none, reduceCtorEq, false_iff, not_and, not_exists]
      rintro h q rfl
      exact hq q h

/-- An accepted completion message moves the index past at most the operation it reports. -/
theorem Completion.advances (h : Completion s msg fut t r) : Advances s t (r.map (·.1)) := by
  have note : ∀ {t' : TrialWorkloadSequencer ι} {op : Option (Runnable ι)},
      Advances (s.noteExit msg.exitedReason) t' op → Advances s t' op := by
    rintro t' op ⟨hops, hidx⟩
    exact ⟨by simpa using hops, by simpa using hidx⟩
  cases h with
  | failed => exact ⟨by simp, .inl ⟨rfl, by simp⟩⟩
  | runStep =>
    have := note (runStepCompleted_advances (s.noteExit msg.exitedReason) msg)
    simpa [Option.map_map, Function.comp_def] using this
  | checkpoint _ _ hc => exact note (checkpointModelCompleted_spec hc).1
  | validation _ _ _ hc => exact note (computeValidationMetricsCompleted_spec hc).1

/-- The snapshot after an accepted message is the old one or the state just reached. -/
theorem Completion.snapshot (h : Completion s msg fut t r) :
    t.latestCheckpointSequencerSnapshot = s.latestCheckpointSequencerSnapshot ∨
      t.latestCheckpointSequencerSnapshot = t.toTrialWorkloadSequencerState := by
  cases h with
  | failed => exact .inl (by simp)
  | runStep => exact .inl (by simp)
  | checkpoint _ _ hc => exact .inr (checkpointModelCompleted_spec hc).2.1
  | validation _ _ _ hc =>
    have := (computeValidationMetricsCompleted_spec hc).2.1
    split at this
    · exact .inr this
    · exact .inl (by simpa using this)

/-- Completing cached checkpoints either does nothing or completes one cached message. -/
theorem completeCachedCheckpoints_cases (h : s.completeCachedCheckpoints = .ok (t, r)) :
    (t = s ∧ r = none) ∨ ∃ w m, s.cachedCheckpoints.lookup w = some m ∧
      Completion { s with cachedCheckpoints := s.cachedCheckpoints.erase w } m none t r := by
  unfold completeCachedCheckpoints at h
  split at h
  · cases h; exact .inl ⟨rfl, rfl⟩
  · obtain ⟨w, -, h⟩ := bind_eq_ok.mp h
    split at h
    · rename_i m hm
      exact .inr ⟨w, m, hm, completion_of_workloadCompleted (wrap_eq_ok.mp h)⟩
    · cases h; exact .inl ⟨rfl, rfl⟩

end TrialWorkloadSequencer

open TrialWorkloadSequencer

variable {ι : Type}

/-! ### Runs -/

/-- What can happen to a sequencer: it gets its trial id, the searcher requests an operation, a
    workload completes, a cached checkpoint is looked for, or a failure rolls it back. -/
inductive SequencerEvent (ι : Type) where
  | setTrialID (trialID : ℤ)
  | operationRequested (op : Runnable ι)
  | workloadCompleted (msg : CompletedMessage) (isBestValFuture : Option (Option Bool))
  | completeCachedCheckpoints
  | rollBackSequencer

def sequencerStep (s : TrialWorkloadSequencer ι) :
    SequencerEvent ι → Except Fault (TrialWorkloadSequencer ι × Option (Runnable ι × OpMetrics))
  | .setTrialID trialID => .ok (s.setTrialID trialID, none)
  | .operationRequested op => .ok (s.operationRequested op, none)
  | .workloadCompleted msg fut => s.workloadCompleted msg fut
  | .completeCachedCheckpoints => s.completeCachedCheckpoints
  | .rollBackSequencer => .ok (s.rollBackSequencer.1, none)

abbrev SequencerEdge (ι : Type) := Edge (TrialWorkloadSequencer ι) (SequencerEvent ι)

/-- One event the sequencer accepts. -/
def SequencerStep (s : TrialWorkloadSequencer ι) (e : SequencerEvent ι)
    (t : TrialWorkloadSequencer ι) : Prop := ∃ r, sequencerStep s e = .ok (t, r)

/-- The operation a step reports as completed. -/
def reportedOp (x : SequencerEdge ι) : Option (Runnable ι) :=
  match sequencerStep x.pre x.event with
  | .ok (_, r) => r.map (·.1)
  | .error _ => none

/-- The position of the `Validate` or `Checkpoint` operation a step reports, among the requested
    operations. The report itself carries only the operation, and two `Validate`s of one trial are
    equal values; the operation reported is the current one. -/
def reportedIdx (x : SequencerEdge ι) : Option ℕ :=
  match reportedOp x with
  | some (.validate _) | some (.checkpoint _) => some x.pre.curOpIdx
  | some (.train _ _) | none => none

/-- The snapshot a step leaves is already past the `Validate` or `Checkpoint` it reports. -/
def Backed (x : SequencerEdge ι) : Prop :=
  ∀ i, reportedIdx x = some i → i < x.post.latestCheckpointSequencerSnapshot.curOpIdx

/-- The step completes a validation, not discarded by a failing exit, while the current operation is
    a `Validate` and batches were run since the last checkpoint. -/
def UnsavedValidate (x : SequencerEdge ι) : Prop :=
  match x.event with
  | .workloadCompleted msg _ => ¬ Fails msg.exitedReason ∧
      msg.workload.kind = .computeValidationMetrics ∧ x.pre.atValidate ∧
      x.pre.batchesSinceLastCkpt ≠ 0
  | _ => False

instance : DecidablePred (UnsavedValidate (ι := ι)) := fun x => by
  unfold UnsavedValidate
  split
  · exact inferInstance
  · exact inferInstanceAs (Decidable False)

/-- What every reachable sequencer keeps about its snapshot: it is not ahead of the state, and both
    cache checkpoints only. -/
structure SnapshotInv (s : TrialWorkloadSequencer ι) : Prop where
  idx : s.latestCheckpointSequencerSnapshot.curOpIdx ≤ s.curOpIdx
  cached : ∀ w m, s.cachedCheckpoints.lookup w = some m → m.workload.kind = .checkpointModel
  cachedSnapshot : ∀ w m, s.latestCheckpointSequencerSnapshot.cachedCheckpoints.lookup w = some m →
    m.workload.kind = .checkpointModel

theorem snapshotInv_new (exp : Experiment) (globalBatchSize : ℤ) (first : Option Checkpoint) :
    SnapshotInv (newTrialWorkloadSequencer ι exp globalBatchSize first) :=
  ⟨le_refl _, by simp [newTrialWorkloadSequencer], by simp [newTrialWorkloadSequencer]⟩

/-- The cache of checkpoints after an accepted message holds, besides the old ones, at most the
    checkpoint just completed. -/
theorem TrialWorkloadSequencer.Completion.cached {s t : TrialWorkloadSequencer ι}
    {msg : CompletedMessage} {fut : Option (Option Bool)} {r : Option (Runnable ι × OpMetrics)}
    {P : CompletedMessage → Prop} (h : Completion s msg fut t r)
    (hs : ∀ w m, s.cachedCheckpoints.lookup w = some m → P m)
    (hmsg : ¬ Fails msg.exitedReason → msg.workload.kind = .checkpointModel → P msg) :
    ∀ w m, t.cachedCheckpoints.lookup w = some m → P m := by
  cases h with
  | failed => simpa using hs
  | runStep => simpa using hs
  | validation _ _ _ hc =>
    rw [(computeValidationMetricsCompleted_spec hc).2.2.1]; simpa using hs
  | checkpoint hf hk hc =>
    rcases (checkpointModelCompleted_spec hc).2.2.2 with heq | heq
    · rw [heq]; simpa using hs
    · intro w m hm
      rw [heq, noteExit_cachedCheckpoints] at hm
      by_cases hw : w = msg.workload
      · subst hw
        rw [AList.lookup_insert] at hm
        cases hm; exact hmsg hf hk
      · rw [AList.lookup_insert_ne hw] at hm
        exact hs w m hm

/-- An accepted message keeps the snapshot invariant. -/
theorem SnapshotInv.completion {s t : TrialWorkloadSequencer ι} {msg : CompletedMessage}
    {fut : Option (Option Bool)} {r : Option (Runnable ι × OpMetrics)} (hs : SnapshotInv s)
    (h : Completion s msg fut t r) : SnapshotInv t := by
  have hcached := h.cached hs.cached (fun _ hk => hk)
  have hle := h.advances.le
  rcases h.snapshot with heq | heq
  · exact ⟨by rw [heq]; exact hs.idx.trans hle, hcached, by rw [heq]; exact hs.cachedSnapshot⟩
  · exact ⟨by rw [heq], hcached, by rw [heq]; exact hcached⟩

/-- Forgetting one cached checkpoint keeps the snapshot invariant. -/
theorem SnapshotInv.eraseCached {s : TrialWorkloadSequencer ι} (hs : SnapshotInv s) (w : Workload) :
    SnapshotInv { s with cachedCheckpoints := s.cachedCheckpoints.erase w } := by
  refine ⟨hs.idx, fun w' m hm => ?_, hs.cachedSnapshot⟩
  by_cases hw : w' = w
  · subst hw; simp at hm
  · rw [AList.lookup_erase_ne hw] at hm
    exact hs.cached w' m hm

theorem snapshotInv_step (s : TrialWorkloadSequencer ι) (e : SequencerEvent ι)
    (t : TrialWorkloadSequencer ι) (hs : SnapshotInv s) (h : SequencerStep s e t) :
    SnapshotInv t := by
  obtain ⟨r, h⟩ := h
  cases e with
  | setTrialID _ => cases h; exact ⟨hs.idx, hs.cached, hs.cachedSnapshot⟩
  | operationRequested _ => cases h; exact ⟨hs.idx, hs.cached, hs.cachedSnapshot⟩
  | workloadCompleted msg fut => exact hs.completion (completion_of_workloadCompleted h)
  | completeCachedCheckpoints =>
    rcases completeCachedCheckpoints_cases h with ⟨rfl, -⟩ | ⟨w, m, -, hc⟩
    · exact hs
    · exact (hs.eraseCached w).completion hc
  | rollBackSequencer => cases h; exact ⟨le_refl _, hs.cachedSnapshot, hs.cachedSnapshot⟩

/-! ### When a report is backed by the snapshot -/

theorem reportedOp_eq {x : SequencerEdge ι} {r : Option (Runnable ι × OpMetrics)}
    (h : sequencerStep x.pre x.event = .ok (x.post, r)) : reportedOp x = r.map (·.1) := by
  simp only [reportedOp, h]

theorem reportedIdx_some {x : SequencerEdge ι} {i : ℕ} (h : reportedIdx x = some i) :
    i = x.pre.curOpIdx ∧ ∃ op, reportedOp x = some op ∧ ∀ q length, op ≠ .train q length := by
  unfold reportedIdx at h
  split at h <;> cases h <;> exact ⟨rfl, _, ‹_›, by simp⟩

/-- A report of an accepted message is backed unless it is a `Validate` that a validation completes
    with batches unsaved; in that case it is not. -/
theorem TrialWorkloadSequencer.Completion.backed_iff {s t : TrialWorkloadSequencer ι}
    {msg : CompletedMessage} {fut : Option (Option Bool)} {r : Option (Runnable ι × OpMetrics)}
    (hs : SnapshotInv s) (h : Completion s msg fut t r) :
    (∀ op, r.map (·.1) = some op → (∀ q length, op ≠ .train q length) →
        s.curOpIdx < t.latestCheckpointSequencerSnapshot.curOpIdx) ↔
      ¬ (¬ Fails msg.exitedReason ∧ msg.workload.kind = .computeValidationMetrics ∧
        s.atValidate ∧ s.batchesSinceLastCkpt ≠ 0) := by
  cases h with
  | failed hf => simp [hf]
  | runStep hf hk =>
    simp only [hk, reduceCtorEq, false_and, and_false, not_false_eq_true, iff_true]
    intro op hop hne
    obtain ⟨q, length, rfl⟩ := runStepCompleted_op (by simpa [Option.map_map] using hop)
    exact absurd rfl (hne q length)
  | checkpoint hf hk hc =>
    obtain ⟨hadv, hsnap, -, -⟩ := checkpointModelCompleted_spec hc
    simp only [hk, reduceCtorEq, false_and, and_false, not_false_eq_true, iff_true]
    intro op hop _
    rw [hsnap]
    rcases hadv.idx with ⟨hnone, -⟩ | ⟨-, -, hidx⟩
    · rw [hnone] at hop; cases hop
    · simp only [noteExit_curOpIdx] at hidx; omega
  | validation hf hk hw hc =>
    obtain ⟨hadv, hsnap, -, hop⟩ := computeValidationMetricsCompleted_spec hc
    simp only [noteExit_batchesSinceLastCkpt, noteExit_snapshot, noteExit_curOp] at hsnap hop
    simp only [hf, hk, not_false_eq_true, true_and, not_and, not_not, atValidate_iff]
    constructor
    · rintro hall ⟨q, hq⟩
      -- with unsaved batches the snapshot is the old one, which is not ahead of the state
      by_contra h0
      have hlt := hall _ ((hop _).mpr ⟨hq, q, rfl⟩) (by simp)
      rw [hsnap, if_neg h0] at hlt
      have := hs.idx
      omega
    · intro hsaved op hr _
      obtain ⟨hq, q, rfl⟩ := (hop op).mp hr
      rw [hsnap, if_pos (hsaved ⟨q, hq⟩)]
      rcases hadv.idx with ⟨hnone, -⟩ | ⟨-, -, hidx⟩
      · rw [hnone] at hr; cases hr
      · simp only [noteExit_curOpIdx] at hidx; omega

theorem backed_iff_reports {x : SequencerEdge ι} {r : Option (Runnable ι × OpMetrics)}
    (h : sequencerStep x.pre x.event = .ok (x.post, r)) : Backed x ↔
      ∀ op, r.map (·.1) = some op → (∀ q length, op ≠ .train q length) →
        x.pre.curOpIdx < x.post.latestCheckpointSequencerSnapshot.curOpIdx := by
  rw [← reportedOp_eq h]
  constructor
  · intro hb op hop hne
    refine hb _ ?_
    cases op with
    | train q length => exact absurd rfl (hne q length)
    | validate q => simp [reportedIdx, hop]
    | checkpoint q => simp [reportedIdx, hop]
  · rintro hall i hi
    obtain ⟨rfl, op, hop, hne⟩ := reportedIdx_some hi
    exact hall op hop hne

/-- Step lemma: a step of a reachable sequencer reports what its snapshot is past, unless it
    completes an unsaved `Validate`. -/
theorem backed_iff_step (s : TrialWorkloadSequencer ι) (e : SequencerEvent ι)
    (t : TrialWorkloadSequencer ι) (hs : SnapshotInv s) (h : SequencerStep s e t) :
    Backed ⟨s, e, t⟩ ↔ ¬ UnsavedValidate ⟨s, e, t⟩ := by
  obtain ⟨r, h⟩ := h
  rw [backed_iff_reports h]
  cases e with
  | setTrialID _ => cases h; simp [UnsavedValidate]
  | operationRequested _ => cases h; simp [UnsavedValidate]
  | rollBackSequencer => cases h; simp [UnsavedValidate]
  | workloadCompleted msg fut =>
    rw [(completion_of_workloadCompleted h).backed_iff hs]
    simp [UnsavedValidate]
  | completeCachedCheckpoints =>
    have hun : ¬ UnsavedValidate (⟨s, .completeCachedCheckpoints, t⟩ : SequencerEdge ι) := by
      simp [UnsavedValidate]
    rcases completeCachedCheckpoints_cases h with ⟨-, rfl⟩ | ⟨w, m, hm, hc⟩
    · simp [hun]
    · -- the cached message is a checkpoint, so no validation completes
      have := (hc.backed_iff (hs.eraseCached w)).mpr (by simp [hs.cached w m hm])
      simpa [hun] using this

/-- A step never takes the snapshot back behind an operation it was past. -/
theorem snapshot_mono (s : TrialWorkloadSequencer ι) (e : SequencerEvent ι)
    (t : TrialWorkloadSequencer ι) (hs : SnapshotInv s) (h : SequencerStep s e t) :
    s.latestCheckpointSequencerSnapshot.curOpIdx ≤
      t.latestCheckpointSequencerSnapshot.curOpIdx := by
  obtain ⟨r, h⟩ := h
  have completion : ∀ {s' : TrialWorkloadSequencer ι} {msg fut}, SnapshotInv s' →
      Completion s' msg fut t r → s'.latestCheckpointSequencerSnapshot.curOpIdx ≤
        t.latestCheckpointSequencerSnapshot.curOpIdx := by
    intro s' msg fut hs' hc
    rcases hc.snapshot with heq | heq
    · rw [heq]
    · rw [heq]; exact hs'.idx.trans hc.advances.le
  cases e with
  | setTrialID _ => cases h; exact le_refl _
  | operationRequested _ => cases h; exact le_refl _
  | rollBackSequencer => cases h; exact le_refl _
  | workloadCompleted msg fut => exact completion hs (completion_of_workloadCompleted h)
  | completeCachedCheckpoints =>
    rcases completeCachedCheckpoints_cases h with ⟨rfl, -⟩ | ⟨w, m, -, hc⟩
    · exact le_refl _
    · have hle := completion (hs.eraseCached w) hc
      exact hle

/-- Run lemma: along a run whose reports are all backed, the reported positions increase strictly,
    since each is below the snapshot that later states never fall behind. -/
theorem reportedIdx_increasing {s t : TrialWorkloadSequencer ι} {tr : List (SequencerEdge ι)}
    (h : Run SequencerStep s tr t) (hs : SnapshotInv s) (hb : ∀ x ∈ tr, Backed x) :
    (∀ i ∈ tr.filterMap reportedIdx, s.latestCheckpointSequencerSnapshot.curOpIdx ≤ i) ∧
      (tr.filterMap reportedIdx).Pairwise (· < ·) := by
  induction h with
  | nil _ => simp
  | @cons s t u e tr hst hrun ih =>
    obtain ⟨hge, hlt⟩ := ih (snapshotInv_step _ _ _ hs hst)
      (fun x hx => hb x (List.mem_cons_of_mem _ hx))
    have hmono := snapshot_mono _ _ _ hs hst
    have hge' : ∀ i ∈ tr.filterMap reportedIdx,
        s.latestCheckpointSequencerSnapshot.curOpIdx ≤ i := fun i hi => hmono.trans (hge i hi)
    cases hr : reportedIdx (⟨s, e, t⟩ : SequencerEdge ι) with
    | none => rw [List.filterMap_cons_none hr]; exact ⟨hge', hlt⟩
    | some i =>
      rw [List.filterMap_cons_some hr]
      have hi : i < t.latestCheckpointSequencerSnapshot.curOpIdx :=
        hb _ (List.mem_cons_self ..) i hr
      obtain ⟨hpre, -⟩ := reportedIdx_some hr
      refine ⟨?_, List.pairwise_cons.mpr ⟨fun j hj => hi.trans_le (hge j hj), hlt⟩⟩
      intro j hj
      rcases List.mem_cons.mp hj with rfl | hj
      · rw [hpre]; exact hs.idx
      · exact hge' j hj

/-- CORRECT: in every run of a new sequencer, the snapshot is past each `Validate` and `Checkpoint`
    the moment it is reported, and each is reported at most once, exactly if no validation of the
    run completes a `Validate` with batches unsaved. -/
theorem completion_backed_iff (exp : Experiment) (globalBatchSize : ℤ) (first : Option Checkpoint)
    {tr : List (SequencerEdge ι)} {t : TrialWorkloadSequencer ι}
    (h : Run SequencerStep (newTrialWorkloadSequencer ι exp globalBatchSize first) tr t) :
    ((∀ x ∈ tr, Backed x) ∧ (tr.filterMap reportedIdx).Nodup) ↔ ∀ x ∈ tr, ¬ UnsavedValidate x := by
  have hnew := snapshotInv_new (ι := ι) exp globalBatchSize first
  have hiff : (∀ x ∈ tr, Backed x) ↔ ∀ x ∈ tr, ¬ UnsavedValidate x :=
    h.forall_iff backed_iff_step (fun s e t hs hst _ => snapshotInv_step s e t hs hst) hnew
  constructor
  · rintro ⟨hb, -⟩
    exact hiff.mp hb
  · intro hno
    have hb := hiff.mpr hno
    exact ⟨hb, (reportedIdx_increasing h hnew hb).2.imp Nat.ne_of_lt⟩

/-- The executable form of `SequencerStep`. -/
def sequencerNext (s : TrialWorkloadSequencer ι) (e : SequencerEvent ι) :
    Option (TrialWorkloadSequencer ι) := (sequencerStep s e).toOption.map (·.1)

theorem sequencerStep_of_next (s : TrialWorkloadSequencer ι) (e : SequencerEvent ι)
    (t : TrialWorkloadSequencer ι) (h : sequencerNext s e = some t) : SequencerStep s e t := by
  unfold sequencerNext at h
  cases hs : sequencerStep s e with
  | error f => rw [hs] at h; cases h
  | ok p => rw [hs] at h; cases h; exact ⟨p.2, hs⟩

/-- A run from given periods, with one batch-counted operation list to come. -/
def periodicExperiment (minValidationPeriod : ℤ) : Experiment where
  id := 1
  config :=
    { performInitialValidation := false, checkpointPolicy := .none
      minValidationPeriod := newLengthInBatches minValidationPeriod
      minCheckpointPeriod := newLengthInBatches 0
      searcherUnit := .batches, recordsPerEpoch := 0, schedulingUnit := 100, maxRestarts := 5 }

/-- The trial trains for 100 batches and validates. -/
def trainThenValidate : List (SequencerEvent ℕ) :=
  [.setTrialID 1, .operationRequested (.train 0 (newLengthInBatches 100)),
    .operationRequested (.validate 0)]

def stepDone : SequencerEvent ℕ :=
  .workloadCompleted ⟨⟨.runStep, 1, 1, 1, 100, 0⟩, none, none, none⟩ (some none)

def validationDone : SequencerEvent ℕ :=
  .workloadCompleted ⟨⟨.computeValidationMetrics, 1, 1, 1, 0, 100⟩, none, none, some ⟨1, []⟩⟩
    (some (some true))

def checkpointDone : SequencerEvent ℕ :=
  .workloadCompleted ⟨⟨.checkpointModel, 1, 1, 1, 0, 100⟩, none, some ⟨"uuid", [], "", ""⟩, none⟩
    (some none)

/-- Without a validation period the checkpoint comes first, and the failure repeats nothing. -/
theorem completion_backed_without_period : ∃ tr t,
    Run SequencerStep (newTrialWorkloadSequencer ℕ (periodicExperiment 0) 64 none) tr t ∧
      tr.map (·.event) = trainThenValidate ++
        [stepDone, checkpointDone, validationDone, .rollBackSequencer] ∧
      (∀ x ∈ tr, Backed x) ∧ (tr.filterMap reportedIdx).Nodup := by
  obtain ⟨tr, t, hrun, hev, hsaved⟩ := Run.exists_of_exec sequencerStep_of_next
    (fun r => decide (∀ x ∈ r.1, ¬ UnsavedValidate x))
    (show (exec sequencerNext (newTrialWorkloadSequencer ℕ (periodicExperiment 0) 64 none)
      (trainThenValidate ++ [stepDone, checkpointDone, validationDone,
        .rollBackSequencer])).map _ = some true by decide)
  exact ⟨tr, t, hrun, hev, (completion_backed_iff _ _ _ hrun).mpr (of_decide_eq_true hsaved)⟩

/-- With a period of 100 batches as well, the validation it asks for completes the `Validate` before
    any checkpoint; after the failure the same operation is reported again. -/
theorem validate_reported_twice : ∃ tr t,
    Run SequencerStep (newTrialWorkloadSequencer ℕ (periodicExperiment 100) 64 none) tr t ∧
      tr.map (·.event) = trainThenValidate ++
        [stepDone, validationDone, .rollBackSequencer, stepDone, validationDone] ∧
      tr.filterMap reportedIdx = [1, 1] ∧
      ¬ ((∀ x ∈ tr, Backed x) ∧ (tr.filterMap reportedIdx).Nodup) := by
  obtain ⟨tr, t, hrun, hev, hidx⟩ := Run.exists_of_exec sequencerStep_of_next
    (fun r => r.1.filterMap reportedIdx)
    (show (exec sequencerNext (newTrialWorkloadSequencer ℕ (periodicExperiment 100) 64 none)
      (trainThenValidate ++ [stepDone, validationDone, .rollBackSequencer, stepDone,
        validationDone])).map _ = some [1, 1] by decide)
  refine ⟨tr, t, hrun, hev, hidx, ?_⟩
  rintro ⟨-, hnd⟩
  rw [hidx] at hnd
  simp at hnd

end Determined.Trial
