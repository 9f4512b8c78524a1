import Determined.Pytorch.Samplers

/-! The learning-rate schedulers of a PyTorch trial over its training loop
    (`determined/pytorch/_lr_scheduler.py`, `determined/pytorch/_pytorch_trial.py`).

    Every rank of a distributed trial runs the same loop over its own training loader and decides
    for itself when to step. A run is a sequence of workloads, checkpoints and restarts, the same
    on every rank; a restart makes the loader anew and reloads the schedulers. -/

namespace Determined.Pytorch

variable {β : Type}

/-- When `scheduler.step()` is executed. -/
inductive StepMode where
  | STEP_EVERY_EPOCH
  | STEP_EVERY_BATCH
  | MANUAL_STEP
  deriving DecidableEq

/-- A scheduler, with the number of times that Determined has stepped it as its state. -/
structure LRScheduler where
  step_mode : StepMode
  steps : ℕ
  deriving DecidableEq

def LRScheduler.step (lr_scheduler : LRScheduler) : LRScheduler :=
  { lr_scheduler with steps := lr_scheduler.steps + 1 }

/-- What the ranks of a trial have in common. -/
structure Trial (β : Type) where
  /-- The batch sampler of `build_training_data_loader()`. -/
  base : BaseSampler β
  /-- `hvd.size()`, or 1 without Horovod. -/
  size : ℕ
  aggregation_frequency : ℕ
  /-- The modes of the schedulers that the trial wraps. -/
  step_modes : List StepMode

/-- The trial controller of one rank. -/
structure Controller where
  /-- `len(self.training_loader)`. -/
  training_loader_len : ℤ
  /-- The batches that the training loader skips. -/
  skip : ℕ
  /-- The batches that the training iterator has yielded. -/
  yielded : ℕ
  lr_schedulers : List LRScheduler
  deriving DecidableEq

/-- A rank of the trial: its controller, the batches that the master knows to be processed, and the
    latest checkpoint with the batches and the states of the schedulers in it. -/
structure Process where
  controller : Controller
  total_batches_processed : ℕ
  checkpoint : ℕ × List ℕ
  deriving DecidableEq

/-! ### The controller -/

/-- `next(self.training_iterator)`, or `none` if it never returns: see `next_batch_spec`. -/
def Trial.next_batch (t : Trial β) (rank : ℕ) (c : Controller) : Option β :=
  t.base.stream 0 (rank + t.size * (c.skip + c.yielded))

/-- `none` where it raises `ZeroDivisionError`. -/
def Trial.get_epoch_idx (c : Controller) (batch_id : ℕ) : Option ℤ :=
  if c.training_loader_len = 0 then none else some (batch_id / c.training_loader_len)

/-- Step a scheduler automatically, once per batch; `none` where it raises `ZeroDivisionError`. -/
def Trial.auto_step_lr_scheduler_per_batch (t : Trial β) (c : Controller) (batch_idx : ℕ)
    (lr_scheduler : LRScheduler) : Option LRScheduler :=
  match lr_scheduler.step_mode with
  | .STEP_EVERY_BATCH => some lr_scheduler.step
  | .STEP_EVERY_EPOCH =>
    if c.training_loader_len = 0 then none
    else
      let mod := ((batch_idx : ℤ) + 1) % c.training_loader_len
      some (if mod = 0 ∨ mod < t.aggregation_frequency then lr_scheduler.step else lr_scheduler)
  | .MANUAL_STEP => some lr_scheduler

/-- One iteration of the loop in `_train_for_step`. -/
def Trial.train_batch (t : Trial β) (rank : ℕ) (c : Controller) (batch_idx : ℕ) :
    Option Controller := do
  let _ ← t.next_batch rank c
  -- The index of the epoch is an argument of the user's train_batch().
  let _ ← Trial.get_epoch_idx c batch_idx
  let lr_schedulers ← c.lr_schedulers.mapM (t.auto_step_lr_scheduler_per_batch c batch_idx)
  return { c with yielded := c.yielded + 1, lr_schedulers := lr_schedulers }

/-- The batches from `total_batches_processed` on. -/
def Trial.train_for_step (t : Trial β) (rank : ℕ) (c : Controller)
    (num_batches total_batches_processed : ℕ) : Option Controller :=
  (List.range' total_batches_processed num_batches).foldlM (t.train_batch rank) c

/-- Start a process from a checkpoint: `_set_data_loaders`, then load the schedulers. -/
def Trial.load (t : Trial β) (rank : ℕ) (checkpoint : ℕ × List ℕ) : Option Process :=
  let skip_batches := checkpoint.1
  match adapt_batch_sampler t.base.batch_sampler true skip_batches t.size rank with
  | .error _ => none
  | .ok training_loader => some {
      controller := {
        training_loader_len := training_loader.len
        skip := skip_batches
        yielded := 0
        lr_schedulers := t.step_modes.zipWith (fun mode steps => ⟨mode, steps⟩) checkpoint.2 }
      total_batches_processed := checkpoint.1
      checkpoint := checkpoint }

/-! ### Runs -/

/-- What happens to a trial, on all its ranks. -/
inductive Event where
  | run_step (num_batches : ℕ)
  | checkpoint_model
  /-- The trial fails and starts again from its latest checkpoint. -/
  | restart
  deriving DecidableEq

def Trial.step (t : Trial β) (rank : ℕ) (p : Process) : Event → Option Process
  | .run_step num_batches =>
    (t.train_for_step rank p.controller num_batches p.total_batches_processed).map fun c =>
      { p with
        controller := c
        total_batches_processed := p.total_batches_processed + num_batches }
  | .checkpoint_model => some { p with
      checkpoint := (p.total_batches_processed, p.controller.lr_schedulers.map (·.steps)) }
  | .restart => t.load rank p.checkpoint

/-- Run a trial from its beginning; `none` if the rank raises an error or gets no batch. -/
def Trial.run (t : Trial β) (rank : ℕ) (es : List Event) : Option Process :=
  (t.load rank (0, t.step_modes.map fun _ => 0)).bind fun p => es.foldlM (t.step rank) p

/-- What a rank has trained `n` batches into the workload that follows `es`: all the batches so
    far, and its controller. -/
def Trial.after (t : Trial β) (rank : ℕ) (es : List Event) (n : ℕ) : Option (ℕ × Controller) :=
  (t.run rank es).bind fun p =>
    (t.train_for_step rank p.controller n p.total_batches_processed).map fun c =>
      (p.total_batches_processed + n, c)

/-! ### How often a scheduler is stepped -/

/-- The batches among the first `n` after which a loop over epochs of `len` batches steps. -/
def due (len f n : ℕ) : ℕ := Nat.count (fun i => (i + 1) % len = 0 ∨ (i + 1) % len < f) n

/-- The state of a scheduler after `n` batches. -/
def stepped (len f n : ℕ) : StepMode → ℕ
  | .STEP_EVERY_EPOCH => due len f n
  | .STEP_EVERY_BATCH => n
  | .MANUAL_STEP => 0

variable {t : Trial β} {rank len n : ℕ} {c : Controller} {p : Process}

/-- The schedulers after `n` batches. -/
def Trial.schedulers (t : Trial β) (len n : ℕ) : List LRScheduler :=
  t.step_modes.map fun mode => ⟨mode, stepped len t.aggregation_frequency n mode⟩

theorem next_batch_spec (t : Trial β) (hr : rank < t.size) (c : Controller) :
    ∃ s, adapt_batch_sampler t.base.batch_sampler true c.skip t.size rank = .ok s ∧
      ∀ b, (s.iter 0).Nth (s.iter 0).start c.yielded b ↔ t.next_batch rank c = some b := by
  obtain ⟨s, hs, hadapts, -⟩ := adapt_batch_sampler_spec t.base.batch_sampler true c.skip hr
  refine ⟨s, hs, fun b => ?_⟩
  rw [hadapts.nth, Trial.next_batch, ← RepeatBatchSampler_nth_iff]
  rfl

theorem next_batch_isSome (hpos : 0 < t.base.length) (rank : ℕ) (c : Controller) :
    ∃ b, t.next_batch rank c = some b := by
  refine ⟨_, List.getElem?_eq_getElem ?_⟩
  rw [t.base.length_batches]
  exact Nat.mod_lt _ hpos

theorem auto_step_spec (hlen : c.training_loader_len = len) (hpos : 0 < len) (mode : StepMode) :
    t.auto_step_lr_scheduler_per_batch c n ⟨mode, stepped len t.aggregation_frequency n mode⟩ =
      some ⟨mode, stepped len t.aggregation_frequency (n + 1) mode⟩ := by
  cases mode with
  | STEP_EVERY_BATCH => rfl
  | MANUAL_STEP => rfl
  | STEP_EVERY_EPOCH =>
    have hne : ¬ (len : ℤ) = 0 := by omega
    have hmod : ((n : ℤ) + 1) % len = ((n + 1) % len : ℕ) := by push_cast; rfl
    have hif : ((n : ℤ) + 1) % len = 0 ∨ ((n : ℤ) + 1) % len < t.aggregation_frequency ↔
        (n + 1) % len = 0 ∨ (n + 1) % len < t.aggregation_frequency := by
      rw [hmod]
      omega
    simp only [Trial.auto_step_lr_scheduler_per_batch, hlen, hne, if_false, hif, stepped, due,
      Nat.count_succ, LRScheduler.step]
    split_ifs <;> rfl

theorem mapM_map {α γ δ : Type} {f : α → γ} {g : γ → Option δ} {h : α → δ}
    (hg : ∀ a, g (f a) = some (h a)) (l : List α) : (l.map f).mapM g = some (l.map h) := by
  induction l with
  | nil => rfl
  | cons a l ih => rw [List.map_cons, List.mapM_cons, hg, ih]; rfl

theorem train_batch_spec (hbase : 0 < t.base.length) (hlen : c.training_loader_len = len)
    (hpos : 0 < len) (hlr : c.lr_schedulers = t.schedulers len n) :
    t.train_batch rank c n =
      some { c with yielded := c.yielded + 1, lr_schedulers := t.schedulers len (n + 1) } := by
  obtain ⟨b, hb⟩ := next_batch_isSome hbase rank c
  have hepoch : Trial.get_epoch_idx c n = some (n / len : ℤ) := by
    rw [Trial.get_epoch_idx, hlen, if_neg (by omega)]
  have hmap : c.lr_schedulers.mapM (t.auto_step_lr_scheduler_per_batch c n) =
      some (t.schedulers len (n + 1)) := by
    rw [hlr]
    exact mapM_map (auto_step_spec hlen hpos) _
  rw [Trial.train_batch, hb, hepoch, hmap]
  rfl

theorem train_for_step_spec (hbase : 0 < t.base.length) (hlen : c.training_loader_len = len)
    (hpos : 0 < len) (hlr : c.lr_schedulers = t.schedulers len n) (m : ℕ) :
    t.train_for_step rank c m n =
      some { c with yielded := c.yielded + m, lr_schedulers := t.schedulers len (n + m) } := by
  induction m generalizing c n with
  | zero =>
    rw [Nat.add_zero, Nat.add_zero, ← hlr]
    rfl
  | succ m ih =>
    rw [Trial.train_for_step, List.range'_succ, List.foldlM_cons,
      train_batch_spec hbase hlen hpos hlr]
    have h := ih (c := { c with
      yielded := c.yielded + 1, lr_schedulers := t.schedulers len (n + 1) }) hlen rfl
    rw [Trial.train_for_step] at h
    rw [Option.bind_eq_bind, Option.bind_some, h, Nat.add_assoc, Nat.add_assoc, Nat.add_comm 1 m]

/-- The batches processed and those in the latest checkpoint, which an event changes on every rank
    alike. -/
def progress (x : ℕ × ℕ) : Event → ℕ × ℕ
  | .run_step num_batches => (x.1 + num_batches, x.2)
  | .checkpoint_model => (x.1, x.1)
  | .restart => (x.2, x.2)

/-- The batches processed after a run. -/
def batches (es : List Event) : ℕ := (es.foldl progress (0, 0)).1

/-- A rank whose schedulers, and those in its checkpoint, are stepped as is due. -/
structure OnSchedule (t : Trial β) (len : ℕ) (p : Process) (x : ℕ × ℕ) : Prop where
  loader : p.controller.training_loader_len = len
  lr_schedulers : p.controller.lr_schedulers = t.schedulers len p.total_batches_processed
  checkpoint : p.checkpoint.2 = (t.schedulers len p.checkpoint.1).map (·.steps)
  progress : (p.total_batches_processed, p.checkpoint.1) = x

variable {x : ℕ × ℕ}

theorem load_spec (hr : rank < t.size) {ckpt : ℕ × List ℕ}
    (hckpt : ckpt.2 = (t.schedulers (t.base.shard t.size rank) ckpt.1).map (·.steps)) :
    ∃ p, t.load rank ckpt = some p ∧
      OnSchedule t (t.base.shard t.size rank) p (ckpt.1, ckpt.1) := by
  obtain ⟨s, hs, -, hlen⟩ := adapt_batch_sampler_spec t.base.batch_sampler true ckpt.1 hr
  rw [shard_cast, if_pos rfl, sub_zero] at hlen
  simp only [Trial.load, hs]
  refine ⟨_, rfl, ⟨hlen, ?_, hckpt, rfl⟩⟩
  simp only [hckpt, Trial.schedulers, List.map_map]
  induction t.step_modes with
  | nil => rfl
  | cons mode modes ih => simp only [List.map_cons, List.zipWith_cons_cons, ih, Function.comp]

section run

variable (hr : rank < t.size) (hpos : 0 < t.base.shard t.size rank)
include hpos

theorem base_length_pos : 0 < t.base.length := by
  by_contra h
  rw [BaseSampler.shard, Nat.eq_zero_of_not_pos h] at hpos
  simp at hpos

include hr

theorem step_spec (h : OnSchedule t (t.base.shard t.size rank) p x) (e : Event) :
    ∃ p', t.step rank p e = some p' ∧
      OnSchedule t (t.base.shard t.size rank) p' (progress x e) := by
  obtain rfl := h.progress
  cases e with
  | run_step num_batches =>
    have htrain : t.train_for_step rank _ num_batches _ = _ :=
      train_for_step_spec (base_length_pos hpos) h.loader hpos h.lr_schedulers num_batches
    simp only [Trial.step, htrain, Option.map_some]
    exact ⟨_, rfl, ⟨h.loader, rfl, h.checkpoint, rfl⟩⟩
  | checkpoint_model =>
    exact ⟨_, rfl, ⟨h.loader, h.lr_schedulers, by rw [h.lr_schedulers], rfl⟩⟩
  | restart => exact load_spec hr h.checkpoint

theorem steps_spec (h : OnSchedule t (t.base.shard t.size rank) p x) (es : List Event) :
    ∃ p', es.foldlM (t.step rank) p = some p' ∧
      OnSchedule t (t.base.shard t.size rank) p' (es.foldl progress x) := by
  induction es generalizing p x with
  | nil => exact ⟨p, rfl, h⟩
  | cons e es ih =>
    obtain ⟨p', hp', h'⟩ := step_spec hr hpos h e
    rw [List.foldlM_cons, hp', List.foldl_cons]
    exact ih h'

/-- A rank that has batches in every epoch trains for ever, and steps its schedulers as is due. -/
theorem after_spec (es : List Event) (n : ℕ) :
    ∃ c, t.after rank es n = some (batches es + n, c) ∧
      c.training_loader_len = t.base.shard t.size rank ∧
      c.lr_schedulers = t.schedulers (t.base.shard t.size rank) (batches es + n) := by
  have hinit : (t.step_modes.map fun _ => 0) =
      (t.schedulers (t.base.shard t.size rank) 0).map (·.steps) := by
    rw [Trial.schedulers, List.map_map]
    refine List.map_congr_left fun mode _ => ?_
    cases mode <;> rfl
  obtain ⟨p, hp, h⟩ := @load_spec _ t rank hr (0, _) hinit
  obtain ⟨p', hp', h'⟩ := steps_spec hr hpos h es
  have hrun : t.run rank es = some p' := by
    rw [Trial.run, hp]
    exact hp'
  have htotal : p'.total_batches_processed = batches es := congrArg Prod.fst h'.progress
  have htrain : t.train_for_step rank _ n _ = _ :=
    train_for_step_spec (base_length_pos hpos) h'.loader hpos h'.lr_schedulers n
  rw [Trial.after, hrun, Option.bind_some, htrain, Option.map_some, htotal]
  exact ⟨_, rfl, h'.loader, rfl⟩

end run

/-! ### Epochs -/

theorem due_eq_div {f : ℕ} (hf : f ≤ 1) (n : ℕ) : due len f n = n / len := by
  induction n with
  | zero => simp [due]
  | succ n ih =>
    rw [due] at ih ⊢
    rw [Nat.count_succ, ih, Nat.succ_div]
    have hiff : ((n + 1) % len = 0 ∨ (n + 1) % len < f) ↔ len ∣ n + 1 := by
      rw [Nat.dvd_iff_mod_eq_zero]
      omega
    simp only [hiff]

theorem due_one_epoch {f n : ℕ} : due 1 f n = n := by
  rw [due]
  simp [Nat.mod_one]

/-- With aggregation the window of the first epoch opens at once. -/
theorem due_first {f : ℕ} (hf : 1 < f) (hlen : 1 < len) : due len f 1 = 1 := by
  simp [due, Nat.count_succ, Nat.mod_eq_of_lt hlen, hf]

/-- A scheduler that is stepped once in every epoch has been stepped, `n` batches into the workload
    that follows any run, once for each of the epochs that are over, on every rank as often. -/
def SteppedPerEpoch (t : Trial β) : Prop :=
  ∀ es n, ∃ k, ∀ rank < t.size, ∃ c, t.after rank es n = some (batches es + n, c) ∧
    c.lr_schedulers.map (·.step_mode) = t.step_modes ∧
    ∀ s ∈ c.lr_schedulers, s.step_mode = .STEP_EVERY_EPOCH →
      s.steps = k ∧ (s.steps : ℤ) = (batches es + n : ℕ) / c.training_loader_len

/-- A rank without a batch of its own in an epoch fails on its first batch. -/
theorem after_none (hr : rank < t.size) (hzero : t.base.shard t.size rank = 0) :
    t.after rank [] 1 = none := by
  obtain ⟨s, hs, -, hlen⟩ := adapt_batch_sampler_spec t.base.batch_sampler true 0 hr
  rw [shard_cast, if_pos rfl, sub_zero, hzero] at hlen
  have hbatch : ∀ c n, c.training_loader_len = 0 → t.train_batch rank c n = none := by
    intro c n hc
    rw [Trial.train_batch, Trial.get_epoch_idx, if_pos hc]
    cases t.next_batch rank c <;> rfl
  have hload : ∃ p, t.run rank [] = some p ∧ p.controller.training_loader_len = 0 := by
    simp only [Trial.run, Trial.load, hs]
    exact ⟨_, rfl, hlen⟩
  obtain ⟨p, hp, hc⟩ := hload
  rw [Trial.after, hp, Option.bind_some, Trial.train_for_step, List.range'_one, List.foldlM_cons,
    hbatch _ _ hc]
  rfl

/-- What remains of the runs is arithmetic. -/
theorem steppedPerEpoch_iff_due (t : Trial β) (hmode : .STEP_EVERY_EPOCH ∈ t.step_modes) :
    SteppedPerEpoch t ↔ (∀ rank < t.size, 0 < t.base.shard t.size rank) ∧
      ∀ n, ∃ k, ∀ rank < t.size, due (t.base.shard t.size rank) t.aggregation_frequency n = k ∧
        k = n / t.base.shard t.size rank := by
  constructor
  · intro h
    have hpos : ∀ rank < t.size, 0 < t.base.shard t.size rank := by
      intro rank hr
      by_contra hzero
      obtain ⟨k, hk⟩ := h [] 1
      obtain ⟨c, hc, -⟩ := hk rank hr
      rw [after_none hr (by omega)] at hc
      cases hc
    refine ⟨hpos, fun n => ?_⟩
    obtain ⟨k, hk⟩ := h [] n
    refine ⟨k, fun rank hr => ?_⟩
    obtain ⟨c, hc, -, hsteps⟩ := hk rank hr
    obtain ⟨c', hc', hlen, hlr⟩ := after_spec hr (hpos rank hr) [] n
    obtain rfl : c' = c := by
      rw [hc'] at hc
      cases hc
      rfl
    have hzero : batches [] + n = n := Nat.zero_add n
    rw [hzero] at hlr hsteps
    obtain ⟨h₁, h₂⟩ := hsteps _ (by rw [hlr]; exact List.mem_map.mpr ⟨_, hmode, rfl⟩) rfl
    refine ⟨h₁, ?_⟩
    rw [h₁, hlen] at h₂
    exact_mod_cast h₂
  · rintro ⟨hpos, h⟩ es n
    obtain ⟨k, hk⟩ := h (batches es + n)
    refine ⟨k, fun rank hr => ?_⟩
    obtain ⟨c, hc, hlen, hlr⟩ := after_spec hr (hpos rank hr) es n
    refine ⟨c, hc, ?_, fun s hs hmode => ?_⟩
    · rw [hlr, Trial.schedulers, List.map_map]
      exact List.map_id _
    · rw [hlr] at hs
      obtain ⟨mode, -, rfl⟩ := List.mem_map.mp hs
      obtain rfl : mode = .STEP_EVERY_EPOCH := hmode
      obtain ⟨hdue, hdiv⟩ := hk rank hr
      refine ⟨hdue, ?_⟩
      rw [stepped, hdue, hlen]
      exact_mod_cast hdiv

/-- CORRECT: schedulers are stepped once in every epoch exactly if the ranks share the batches of an
    epoch evenly, and gradients are not aggregated (or every batch ends an epoch). -/
theorem steppedPerEpoch_iff (t : Trial β) (hsize : 0 < t.size)
    (hmode : .STEP_EVERY_EPOCH ∈ t.step_modes) :
    SteppedPerEpoch t ↔ 0 < t.base.length ∧ t.size ∣ t.base.length ∧
      (t.aggregation_frequency ≤ 1 ∨ t.base.length = t.size) := by
  rw [steppedPerEpoch_iff_due t hmode]
  constructor
  · rintro ⟨hpos, h⟩
    have hfirst := hpos 0 hsize
    have hdvd : t.size ∣ t.base.length := by
      by_contra hndvd
      have hmod : 0 < t.base.length % t.size := by
        rw [Nat.dvd_iff_mod_eq_zero] at hndvd
        omega
      have hlt := Nat.mod_lt t.base.length hsize
      have h₀ : t.base.shard t.size 0 = t.base.length / t.size + 1 := by
        rw [BaseSampler.shard, if_pos hmod]
      have h₁ : t.base.shard t.size (t.size - 1) = t.base.length / t.size := by
        rw [BaseSampler.shard, if_neg (by omega), Nat.add_zero]
      have hq := hpos (t.size - 1) (by omega)
      rw [h₁] at hq
      -- The last rank has a shorter epoch: when it is over, that of the first rank is not.
      obtain ⟨k, hk⟩ := h (t.base.length / t.size)
      have hk₀ := (hk 0 hsize).2
      have hk₁ := (hk (t.size - 1) (by omega)).2
      rw [h₀, Nat.div_eq_of_lt (Nat.lt_succ_self _)] at hk₀
      rw [h₁, Nat.div_self hq] at hk₁
      omega
    have hshard : t.base.shard t.size 0 = t.base.length / t.size := by
      rw [BaseSampler.shard, Nat.dvd_iff_mod_eq_zero.mp hdvd]
      rfl
    refine ⟨base_length_pos hfirst, hdvd, ?_⟩
    by_contra hcond
    rw [not_or] at hcond
    have hne : t.base.shard t.size 0 ≠ 1 := by
      intro h₁
      rw [hshard] at h₁
      exact hcond.2 ((Nat.div_eq_iff_eq_mul_left hsize hdvd).mp h₁ |>.trans (Nat.one_mul _))
    obtain ⟨k, hk⟩ := h 1
    obtain ⟨hdue, hdiv⟩ := hk 0 hsize
    rw [due_first (by omega) (by omega)] at hdue
    rw [Nat.div_eq_of_lt (by omega)] at hdiv
    omega
  · rintro ⟨hlen, hdvd, hcond⟩
    have hshard : ∀ rank, t.base.shard t.size rank = t.base.length / t.size := by
      intro rank
      rw [BaseSampler.shard, Nat.dvd_iff_mod_eq_zero.mp hdvd]
      simp
    have hpos : 0 < t.base.length / t.size := Nat.div_pos (Nat.le_of_dvd hlen hdvd) hsize
    refine ⟨fun rank _ => by rw [hshard]; exact hpos,
      fun n => ⟨n / (t.base.length / t.size), fun rank _ => ?_⟩⟩
    rw [hshard]
    refine ⟨?_, rfl⟩
    rcases hcond with hf | heq
    · exact due_eq_div hf n
    · rw [heq, Nat.div_self hsize, due_one_epoch, Nat.div_one]

/-- Two ranks share four batches and do not aggregate gradients. -/
theorem steppedPerEpoch_iff_two :
    SteppedPerEpoch ⟨⟨fun _ => [0, 1, 2, 3], 4, fun _ => rfl⟩, 2, 1, [.STEP_EVERY_EPOCH]⟩ ↔
      0 < 4 ∧ 2 ∣ 4 ∧ (1 ≤ 1 ∨ 4 = 2) :=
  steppedPerEpoch_iff (β := ℕ)
    ⟨⟨fun _ => [0, 1, 2, 3], 4, fun _ => rfl⟩, 2, 1, [.STEP_EVERY_EPOCH]⟩ (by decide) (by decide)

/-- With an aggregation frequency of two the first batch of an epoch of four already steps. -/
theorem not_steppedPerEpoch_with_aggregation :
    ¬ SteppedPerEpoch (β := ℕ)
      ⟨⟨fun _ => [0, 1, 2, 3], 4, fun _ => rfl⟩, 1, 2, [.STEP_EVERY_EPOCH]⟩ := by
  intro h
  obtain ⟨k, hk⟩ := h [] 1
  obtain ⟨c, hc, -, hsteps⟩ := hk 0 (by decide)
  cases hc
  obtain ⟨-, hdiv⟩ := hsteps ⟨.STEP_EVERY_EPOCH, 1⟩ (List.mem_singleton.mpr rfl) rfl
  exact absurd hdiv (by decide)

end Determined.Pytorch
