import Determined.Harness.Check

/-! Gradient aggregation of a PyTorch trial (`determined/pytorch/_pytorch_context.py`).

    `backward` adds the gradient of a batch to what the parameters hold, and `step_optimizer` steps
    the optimizer with what they hold after every `aggregation_frequency`-th batch. Gradients are
    vectors `V` over the rationals; with Horovod they are those of all the workers, and
    `synchronize` is what its optimizer does to them. -/

namespace Determined.Pytorch

open Determined.Harness

variable {V : Type} [AddCommGroup V] [Module ℚ V]

structure HorovodContext where
  use : Bool
  aggregation_frequency : ℕ
  average_aggregated_gradients : Bool
  /-- The master's check of the experiment's configuration. -/
  aggregation_frequency_pos : 0 < aggregation_frequency

/-- What stays the same while a trial trains. -/
structure TrialEnv (V : Type) where
  managed_training : Bool
  hvd_config : HorovodContext
  use_amp : Bool
  /-- `optimizer.synchronize()`: the workers reduce the gradients that they hold. -/
  synchronize : V → V

/-- The context of a trial: the indices, the gradients that the parameters hold, and the gradients
    that `optimizer.step()` was applied to. -/
structure PyTorchTrialContext (V : Type) where
  current_batch_idx : Option ℕ
  last_backward_batch_idx : Option ℕ
  grad : V
  applied : List V

/-- What one `train_batch` does: a backward pass with the gradient of its batch, and the arguments
    of `step_optimizer`. -/
structure TrainBatch (V : Type) where
  gradient : V
  clip_grads : Option (V → V)
  auto_zero_grads : Bool

/-! ### The context -/

namespace TrialEnv

variable (env : TrialEnv V)

def should_communicate_and_update (ctx : PyTorchTrialContext V) : Except String Bool :=
  if !env.managed_training then .ok true
  else match ctx.current_batch_idx with
    | none => .error "Training hasn't started."
    | some idx => .ok ((idx + 1) % env.hvd_config.aggregation_frequency == 0)

def backward (ctx : PyTorchTrialContext V) (gradient : V) :
    Except String (PyTorchTrialContext V) :=
  if env.use_amp then
    let again := match ctx.last_backward_batch_idx, ctx.current_batch_idx with
      | some last, some current => decide (current ≤ last)
      | _, _ => false
    if again then
      .error ("Calling context.backward(loss) multiple times is not supported " ++
        "while using apex.amp and parallel/distributed training")
    else
      let ctx := { ctx with
        last_backward_batch_idx := ctx.current_batch_idx
        grad := ctx.grad + gradient }
      -- The gradients are communicated before they are unscaled.
      if env.hvd_config.use then do
        if ← env.should_communicate_and_update ctx then
          return { ctx with grad := env.synchronize ctx.grad }
        else return ctx
      else .ok ctx
  else .ok { ctx with grad := ctx.grad + gradient }

def average_gradients (grad : V) (divisor : ℕ) : Except String V := do
  check.gt_eq divisor 1 none
  if divisor = 1 then return grad
  return (divisor : ℚ)⁻¹ • grad

/-- The check of the arguments of `step_optimizer`. -/
def check_arguments (auto_zero_grads : Bool) : Except String Unit :=
  check.true (auto_zero_grads || decide (env.hvd_config.aggregation_frequency > 1))
    (some ("if optimizations.aggregation_frequency is larger than 1, " ++
      "you can only set auto_zero_grads to be true. "))

/-- `clip_grads` changes the gradients in place, if it is given. -/
def clipped (clip_grads : Option (V → V)) (grad : V) : V :=
  match clip_grads with
  | some clip => clip grad
  | none => grad

def step_optimizer (ctx : PyTorchTrialContext V) (clip_grads : Option (V → V))
    (auto_zero_grads : Bool) : Except String (PyTorchTrialContext V) := do
  env.check_arguments auto_zero_grads
  if ← env.should_communicate_and_update ctx then
    let grad := if env.hvd_config.use && !env.use_amp then env.synchronize ctx.grad else ctx.grad
    let grad ← (if env.hvd_config.average_aggregated_gradients
      then average_gradients grad env.hvd_config.aggregation_frequency
      else .ok grad)
    let grad := clipped clip_grads grad
    return { ctx with
      grad := if auto_zero_grads then 0 else grad
      applied := ctx.applied ++ [grad] }
  else return ctx

/-! ### The training loop -/

/-- One iteration of the loop in `_train_for_step`. -/
def train_batch (ctx : PyTorchTrialContext V) (batch_idx : ℕ) (batch : TrainBatch V) :
    Except String (PyTorchTrialContext V) := do
  let ctx ← env.backward { ctx with current_batch_idx := some batch_idx } batch.gradient
  env.step_optimizer ctx batch.clip_grads batch.auto_zero_grads

/-- A run from batch 0. -/
def run (batches : List (TrainBatch V)) : Except String (PyTorchTrialContext V) :=
  batches.zipIdx.foldlM (fun ctx batch => env.train_batch ctx batch.2 batch.1)
    ⟨none, none, 0, []⟩

/-! ### What the optimizer is stepped with -/

/-- What becomes of a sum of gradients before `optimizer.step()`: their mean, with averaging. -/
def aggregated (sum : V) : V :=
  let sum := if env.hvd_config.use then env.synchronize sum else sum
  if env.hvd_config.average_aggregated_gradients
  then (env.hvd_config.aggregation_frequency : ℚ)⁻¹ • sum
  else sum

/-- What a window of batches is stepped with: the aggregate of its gradients, clipped as its last
    batch asks for. -/
def windowed (window : List (TrainBatch V)) : V :=
  clipped (window.getLast?.bind (·.clip_grads))
    (env.aggregated (window.map (·.gradient)).sum)

/-- `step_optimizer` accepts the arguments of all the batches or rejects them, as its documentation
    states: `auto_zero_grads` may be false exactly if the frequency is one. -/
def AcceptsAsDocumented (batches : List (TrainBatch V)) : Prop :=
  ∀ batch ∈ batches, env.check_arguments batch.auto_zero_grads = .ok () ↔
    (batch.auto_zero_grads = false → env.hvd_config.aggregation_frequency = 1)

/-- If all arguments are accepted, the optimizer is stepped with one window of
    `aggregation_frequency` batches after the other. -/
def StepsByWindow (batches : List (TrainBatch V)) : Prop :=
  (∀ batch ∈ batches, env.check_arguments batch.auto_zero_grads = .ok ()) →
    ∃ (ctx : PyTorchTrialContext V) (windows : List (List (TrainBatch V)))
      (rest : List (TrainBatch V)), env.run batches = .ok ctx ∧ batches = windows.flatten ++ rest ∧
      (∀ window ∈ windows, window.length = env.hvd_config.aggregation_frequency) ∧
      rest.length < env.hvd_config.aggregation_frequency ∧
      ctx.applied = windows.map env.windowed

variable {env} {ctx : PyTorchTrialContext V} {batches : List (TrainBatch V)} {i : ℕ}

omit [AddCommGroup V] [Module ℚ V] in
theorem check_arguments_iff {auto_zero_grads : Bool} :
    env.check_arguments auto_zero_grads = .ok () ↔
      auto_zero_grads = true ∨ env.hvd_config.aggregation_frequency > 1 := by
  rw [check_arguments, check.true, check_eq_ok_iff, Bool.or_eq_true, decide_eq_true_iff]

omit [AddCommGroup V] [Module ℚ V] in
theorem should_communicate_and_update_spec (hmanaged : env.managed_training = true)
    (hidx : ctx.current_batch_idx = some i) :
    env.should_communicate_and_update ctx =
      .ok ((i + 1) % env.hvd_config.aggregation_frequency == 0) := by
  rw [should_communicate_and_update, hmanaged, hidx]
  rfl

theorem average_gradients_spec {divisor : ℕ} (hpos : 0 < divisor) (grad : V) :
    average_gradients grad divisor = .ok ((divisor : ℚ)⁻¹ • grad) := by
  have hcheck : check.gt_eq (divisor : ℤ) 1 none = .ok ⟨⟩ :=
    check_eq_ok (decide_eq_true (by omega))
  rw [average_gradients, hcheck]
  by_cases hone : divisor = 1
  · subst hone
    simp
  · simp [hone]

/-- The gradients are communicated with this batch. -/
def communicates (env : TrialEnv V) (i : ℕ) : Bool :=
  env.hvd_config.use && (i + 1) % env.hvd_config.aggregation_frequency == 0

omit [Module ℚ V] in
theorem backward_spec (hmanaged : env.managed_training = true)
    (hidx : ctx.current_batch_idx = some i)
    (hlast : ∀ l, ctx.last_backward_batch_idx = some l → l < i) (gradient : V) :
    env.backward ctx gradient = .ok { ctx with
      last_backward_batch_idx := if env.use_amp then some i else ctx.last_backward_batch_idx
      grad := if env.use_amp && env.communicates i
        then env.synchronize (ctx.grad + gradient) else ctx.grad + gradient } := by
  have hagain : (match ctx.last_backward_batch_idx, ctx.current_batch_idx with
      | some last, some current => decide (current ≤ last)
      | _, _ => false) = false := by
    rw [hidx]
    cases hl : ctx.last_backward_batch_idx with
    | none => rfl
    | some l => exact decide_eq_false (by have := hlast l hl; omega)
  cases hamp : env.use_amp with
  | false => simp [backward, hamp]
  | true =>
    simp only [backward, hamp, hagain, if_true, Bool.false_eq_true, if_false]
    cases huse : env.hvd_config.use with
    | false => simp [communicates, huse, hidx]
    | true =>
      have hupdate : env.should_communicate_and_update { ctx with
          last_backward_batch_idx := ctx.current_batch_idx, grad := ctx.grad + gradient } =
          .ok ((i + 1) % env.hvd_config.aggregation_frequency == 0) :=
        should_communicate_and_update_spec hmanaged hidx
      rw [hupdate]
      cases hmod : (i + 1) % env.hvd_config.aggregation_frequency == 0 <;>
        simp [communicates, huse, hmod, hidx] <;> rfl

theorem step_optimizer_spec (hmanaged : env.managed_training = true)
    (hidx : ctx.current_batch_idx = some i) (clip_grads : Option (V → V)) {sum : V}
    (hsum : ctx.grad = if env.use_amp && env.communicates i then env.synchronize sum else sum) :
    env.step_optimizer ctx clip_grads true = .ok
      (if (i + 1) % env.hvd_config.aggregation_frequency = 0 then { ctx with
        grad := 0
        applied := ctx.applied ++ [clipped clip_grads (env.aggregated sum)] }
      else ctx) := by
  have hargs : env.check_arguments true = .ok () := check_arguments_iff.mpr (.inl rfl)
  rw [step_optimizer, hargs, should_communicate_and_update_spec hmanaged hidx]
  by_cases hmod : (i + 1) % env.hvd_config.aggregation_frequency = 0
  · -- Without amp the gradients are communicated here, with it they were in the backward pass.
    have hsync : (if (env.hvd_config.use && !env.use_amp) = true then env.synchronize ctx.grad
        else ctx.grad) = if env.hvd_config.use = true then env.synchronize sum else sum := by
      rw [hsum]
      cases huse : env.hvd_config.use <;> cases env.use_amp <;> simp [communicates, hmod, huse]
    have haverage : (if env.hvd_config.average_aggregated_gradients = true
        then average_gradients (if env.hvd_config.use = true then env.synchronize sum else sum)
          env.hvd_config.aggregation_frequency
        else .ok (if env.hvd_config.use = true then env.synchronize sum else sum)) =
        .ok (env.aggregated sum) := by
      rw [average_gradients_spec env.hvd_config.aggregation_frequency_pos, aggregated]
      cases env.hvd_config.average_aggregated_gradients <;> rfl
    rw [beq_iff_eq.mpr hmod, if_pos hmod]
    simp only [hsync, haverage]
    rfl
  · rw [beq_eq_false_iff_ne.mpr hmod, if_neg hmod]
    rfl

/-! ### Runs -/

/-- The batches so far: the windows that the optimizer was stepped with, and the rest, whose
    gradients the parameters hold. -/
structure Aggregating (env : TrialEnv V) (ctx : PyTorchTrialContext V)
    (windows : List (List (TrainBatch V))) (rest : List (TrainBatch V)) (n : ℕ) : Prop where
  grad : ctx.grad = (rest.map (·.gradient)).sum
  applied : ctx.applied = windows.map env.windowed
  last_backward : ∀ l, ctx.last_backward_batch_idx = some l → l < n
  windows_length : ∀ window ∈ windows, window.length = env.hvd_config.aggregation_frequency
  rest_length : rest.length = n % env.hvd_config.aggregation_frequency

variable {windows : List (List (TrainBatch V))} {rest : List (TrainBatch V)} {n : ℕ}
  {batch : TrainBatch V}

theorem mod_succ_of_ne {n f : ℕ} (hf : 0 < f) (h : (n + 1) % f ≠ 0) : (n + 1) % f = n % f + 1 := by
  have hlt : n % f + 1 < f := by
    by_contra hge
    have heq : n % f + 1 = f := by have := Nat.mod_lt n hf; omega
    rw [← Nat.mod_add_mod, heq, Nat.mod_self] at h
    exact h rfl
  rw [← Nat.mod_add_mod, Nat.mod_eq_of_lt hlt]

theorem mod_succ_of_eq {n f : ℕ} (hf : 0 < f) (h : (n + 1) % f = 0) : n % f + 1 = f := by
  have hdvd : f ∣ n % f + 1 := by
    rw [Nat.dvd_iff_mod_eq_zero, Nat.mod_add_mod]
    exact h
  exact le_antisymm (Nat.mod_lt n hf) (Nat.le_of_dvd (by omega) hdvd)

/-- A batch closes its window or joins the rest. -/
theorem train_batch_spec (hmanaged : env.managed_training = true)
    (h : Aggregating env ctx windows rest n) (hzero : batch.auto_zero_grads = true) :
    ∃ ctx', env.train_batch ctx n batch = .ok ctx' ∧
      (Aggregating env ctx' (windows ++ [rest ++ [batch]]) [] (n + 1) ∨
        Aggregating env ctx' windows (rest ++ [batch]) (n + 1)) := by
  have hf := env.hvd_config.aggregation_frequency_pos
  have hsum : ctx.grad + batch.gradient = ((rest ++ [batch]).map (·.gradient)).sum := by
    rw [h.grad, List.map_append, List.sum_append, List.map_singleton, List.sum_singleton]
  obtain ⟨ctx₁, hback, hidx, hlast₁, hgrad, happlied⟩ : ∃ ctx₁,
      env.backward { ctx with current_batch_idx := some n } batch.gradient = .ok ctx₁ ∧
      ctx₁.current_batch_idx = some n ∧
      ctx₁.last_backward_batch_idx =
        (if env.use_amp then some n else ctx.last_backward_batch_idx) ∧
      ctx₁.grad = (if env.use_amp && env.communicates n
        then env.synchronize (ctx.grad + batch.gradient) else ctx.grad + batch.gradient) ∧
      ctx₁.applied = ctx.applied :=
    ⟨_, @backward_spec V _ env { ctx with current_batch_idx := some n } n hmanaged rfl
      h.last_backward batch.gradient, rfl, rfl, rfl, rfl⟩
  have hlast : ∀ l, ctx₁.last_backward_batch_idx = some l → l < n + 1 := by
    intro l hl
    rw [hlast₁] at hl
    split_ifs at hl
    · cases hl
      exact Nat.lt_succ_self _
    · exact Nat.lt_succ_of_lt (h.last_backward l hl)
  have htrain : env.train_batch ctx n batch =
      env.step_optimizer ctx₁ batch.clip_grads true := by
    rw [train_batch, hback, hzero]
    rfl
  rw [htrain, step_optimizer_spec hmanaged hidx batch.clip_grads hgrad]
  refine ⟨_, rfl, ?_⟩
  split_ifs with hmod
  · refine .inl ⟨rfl, ?_, hlast, ?_, by rw [hmod]; rfl⟩
    · rw [List.map_append, happlied, h.applied, List.map_singleton, windowed, ← hsum,
        List.getLast?_concat]
      rfl
    · intro window hwindow
      rcases List.mem_append.mp hwindow with hwindow | hwindow
      · exact h.windows_length window hwindow
      · rw [List.mem_singleton.mp hwindow, List.length_append, h.rest_length]
        exact mod_succ_of_eq hf hmod
  · refine .inr ⟨?_, by rw [happlied, h.applied], hlast, h.windows_length, ?_⟩
    · rw [← hsum, hgrad]
      simp [communicates, hmod]
    · rw [List.length_append, h.rest_length, List.length_singleton, mod_succ_of_ne hf hmod]

theorem run_snoc (batches : List (TrainBatch V)) (batch : TrainBatch V) :
    env.run (batches ++ [batch]) =
      (env.run batches).bind fun ctx => env.train_batch ctx batches.length batch := by
  rw [run, List.zipIdx_append, List.foldlM_append]
  simp only [List.zipIdx_singleton, List.foldlM_cons, List.foldlM_nil, Nat.zero_add]
  exact bind_congr fun ctx => bind_pure _

/-- A run that zeroes the gradients after every step. -/
theorem run_spec (hmanaged : env.managed_training = true) (batches : List (TrainBatch V))
    (hzero : ∀ batch ∈ batches, batch.auto_zero_grads = true) :
    ∃ ctx windows rest, env.run batches = .ok ctx ∧ batches = windows.flatten ++ rest ∧
      Aggregating env ctx windows rest batches.length := by
  induction batches using List.reverseRecOn with
  | nil => exact ⟨_, [], [], rfl, rfl, ⟨rfl, rfl, by simp, by simp, by simp⟩⟩
  | append_singleton batches batch ih =>
    obtain ⟨ctx, windows, rest, hrun, hsplit, h⟩ :=
      ih fun b hb => hzero b (List.mem_append_left _ hb)
    obtain ⟨ctx', htrain, h'⟩ := train_batch_spec hmanaged h (hzero batch (by simp))
    have hrun' : env.run (batches ++ [batch]) = .ok ctx' := by
      rw [run_snoc, hrun]
      exact htrain
    rw [List.length_append, List.length_singleton]
    rcases h' with h' | h'
    · refine ⟨ctx', _, [], hrun', ?_, h'⟩
      simp [hsplit]
    · refine ⟨ctx', windows, _, hrun', ?_, h'⟩
      simp [hsplit]

/-- CORRECT: the optimizer accepts what is documented and steps by windows in exactly the runs that
    leave `auto_zero_grads` true. Its check is the wrong way round: where the documentation allows
    false it is rejected, and where it is accepted no gradient is ever dropped. -/
theorem aggregates_iff (hmanaged : env.managed_training = true) (batches : List (TrainBatch V)) :
    (env.AcceptsAsDocumented batches ∧ env.StepsByWindow batches) ↔
      ∀ batch ∈ batches, batch.auto_zero_grads = true := by
  have hf := env.hvd_config.aggregation_frequency_pos
  constructor
  · rintro ⟨haccepts, -⟩ batch hbatch
    by_contra hfalse
    rw [Bool.not_eq_true] at hfalse
    have h := haccepts batch hbatch
    rw [check_arguments_iff, hfalse] at h
    by_cases hone : env.hvd_config.aggregation_frequency = 1
    · have := h.mpr fun _ => hone
      simp [hone] at this
    · exact hone (h.mp (.inr (by omega)) rfl)
  · intro hzero
    refine ⟨fun batch hbatch => ?_, fun _ => ?_⟩
    · rw [check_arguments_iff, hzero batch hbatch]
      simp
    · obtain ⟨ctx, windows, rest, hrun, hsplit, h⟩ := run_spec hmanaged batches hzero
      exact ⟨ctx, windows, rest, hrun, hsplit, h.windows_length,
        h.rest_length ▸ Nat.mod_lt _ hf, h.applied⟩

/-- One worker aggregates two batches and averages. -/
theorem aggregates_iff_two :
    (AcceptsAsDocumented (V := ℚ) ⟨true, ⟨false, 2, true, by decide⟩, false, id⟩
        [⟨1, none, true⟩, ⟨3, none, true⟩] ∧
      StepsByWindow (V := ℚ) ⟨true, ⟨false, 2, true, by decide⟩, false, id⟩
        [⟨1, none, true⟩, ⟨3, none, true⟩]) ↔
      ∀ batch ∈ ([⟨1, none, true⟩, ⟨3, none, true⟩] : List (TrainBatch ℚ)),
        batch.auto_zero_grads = true :=
  aggregates_iff rfl _

/-- Without zeroing, the second step of a frequency of two is applied to four gradients. -/
theorem stale_gradients_applied :
    ¬ AcceptsAsDocumented (V := ℚ) ⟨true, ⟨false, 2, false, by decide⟩, false, id⟩
        (List.replicate 4 ⟨1, none, false⟩) ∧
      ¬ StepsByWindow (V := ℚ) ⟨true, ⟨false, 2, false, by decide⟩, false, id⟩
        (List.replicate 4 ⟨1, none, false⟩) := by
  constructor
  · intro h
    have hok := (h ⟨1, none, false⟩ (by simp)).mp (check_arguments_iff.mpr (.inr (by decide)))
    exact absurd (hok rfl) (by decide)
  · intro h
    obtain ⟨ctx, windows, rest, hrun, hsplit, hlength, -, happlied⟩ := h fun batch hbatch =>
      check_arguments_iff.mpr (.inr (by decide))
    have hstale : (4 : ℚ) ∈ ctx.applied := by
      cases hrun
      decide +kernel
    rw [happlied] at hstale
    obtain ⟨window, hwindow, hfour⟩ := List.mem_map.mp hstale
    have hwindow' : window = List.replicate 2 ⟨1, none, false⟩ := by
      refine List.eq_replicate_iff.mpr ⟨hlength window hwindow, fun batch hbatch => ?_⟩
      have hmem : batch ∈ windows.flatten ++ rest :=
        List.mem_append_left _ (List.mem_flatten.mpr ⟨window, hwindow, hbatch⟩)
      rw [← hsplit] at hmem
      exact List.eq_of_mem_replicate hmem
    rw [hwindow'] at hfour
    revert hfour
    decide +kernel

end TrialEnv

end Determined.Pytorch
