import Determined.Harness.Check
import Determined.Schemes.Generator

/-! The batch samplers of a PyTorch trial (`determined/pytorch/_data.py`).

    A batch sampler is iterated over pass by pass, and a shuffling one gives another order in every
    pass, so `iter` is numbered. `adapt_batch_sampler` stacks up to three wrappers around the
    sampler of a data loader: it repeats, then shards, then skips. -/

namespace Determined.Pytorch

open Determined.Harness Determined.Schemes

variable {β : Type}

/-- A batch sampler: what `__len__` says and what the `k`-th call of `__iter__` returns. -/
structure BatchSampler (β : Type) where
  len : ℤ
  iter : ℕ → Generator β

/-- A sampler that yields all its batches in every pass, as PyTorch's own do. -/
structure BaseSampler (β : Type) where
  /-- The batches of the `k`-th pass. -/
  batches : ℕ → List β
  length : ℕ
  length_batches : ∀ k, (batches k).length = length

def BaseSampler.batch_sampler (base : BaseSampler β) : BatchSampler β where
  len := base.length
  iter := fun k => .ofList (base.batches k)

/-- Yields infinite batches by repeatedly iterating through the batches of another sampler. -/
def RepeatBatchSampler (batch_sampler : BatchSampler β) : BatchSampler β where
  len := batch_sampler.len
  iter := fun k => .cycle fun j => batch_sampler.iter (k + j)

/-- Passes every nth batch to a worker, using the worker's rank as the initial offset. -/
def DistributedBatchSampler (batch_sampler : BatchSampler β) (num_replicas rank : ℤ) :
    Except String (BatchSampler β) := do
  check.gt rank (-1) (some "rank must be non-negative")
  check.gt num_replicas 0 (some "num_replicas must be positive")
  check.lt rank num_replicas (some "rank must be less than num_replicas")
  return {
    len :=
      let full_global_batches := batch_sampler.len / num_replicas
      let worker_gets_partial_batch := if batch_sampler.len % num_replicas > rank then 1 else 0
      full_global_batches + worker_gets_partial_batch
    iter := fun k =>
      if num_replicas = 1 then batch_sampler.iter k
      else .stride num_replicas.toNat rank.toNat (batch_sampler.iter k) }

/-- Skips some batches from an underlying sampler, and yields the rest. -/
def SkipBatchSampler (batch_sampler : BatchSampler β) (skip : ℕ) (same_length : Bool) :
    BatchSampler β where
  len := if same_length then batch_sampler.len else batch_sampler.len - skip
  iter := fun k => .drop skip (batch_sampler.iter k)

/-- Account for repeating on training datasets, skipping when continuing training, and sharding for
    distributed training. -/
def adapt_batch_sampler (batch_sampler : BatchSampler β) (repeats : Bool) (skip : ℕ)
    (num_replicas rank : ℤ) : Except String (BatchSampler β) := do
  let batch_sampler := if repeats then RepeatBatchSampler batch_sampler else batch_sampler
  let batch_sampler ←
    (if num_replicas > 1 then DistributedBatchSampler batch_sampler num_replicas rank
      else .ok batch_sampler)
  return if skip > 0 then SkipBatchSampler batch_sampler skip repeats else batch_sampler

/-! ### What each wrapper does -/

/-- What the wrappers that shard and skip do to a sampler: they yield every `n`-th batch, from the
    `r`-th on, without the first `skip` of these. -/
structure Adapts (batch_sampler s : BatchSampler β) (n r skip : ℕ) : Prop where
  nth : ∀ k j b, (s.iter k).Nth (s.iter k).start j b ↔
    (batch_sampler.iter k).Nth (batch_sampler.iter k).start (r + n * (skip + j)) b
  exhausts : ∀ k bs, (batch_sampler.iter k).Exhausts (batch_sampler.iter k).start bs →
    (s.iter k).Exhausts (s.iter k).start ((Generator.everyNth n r 0 bs).drop skip)

variable {n r : ℕ}

theorem everyNth_one (l : List β) : Generator.everyNth 1 0 0 l = l := by
  refine List.ext_getElem? fun k => ?_
  rw [Generator.everyNth_getElem? Nat.one_pos, Nat.zero_add, Nat.one_mul]

theorem DistributedBatchSampler_spec (batch_sampler : BatchSampler β) (hr : r < n) (hn : n ≠ 1) :
    ∃ s, DistributedBatchSampler batch_sampler n r = .ok s ∧ Adapts batch_sampler s n r 0 ∧
      s.len = batch_sampler.len / n + (if batch_sampler.len % n > r then 1 else 0) := by
  have h₁ : check.gt.{1} (r : ℤ) (-1) (some "rank must be non-negative") = .ok ⟨⟩ :=
    check_eq_ok (decide_eq_true (by omega))
  have h₂ : check.gt.{1} (n : ℤ) 0 (some "num_replicas must be positive") = .ok ⟨⟩ :=
    check_eq_ok (decide_eq_true (by omega))
  have h₃ : check.lt.{1} (r : ℤ) n (some "rank must be less than num_replicas") = .ok ⟨⟩ :=
    check_eq_ok (decide_eq_true (by omega))
  have hn' : ¬ (n : ℤ) = 1 := by omega
  refine ⟨⟨batch_sampler.len / n + (if batch_sampler.len % n > r then 1 else 0),
    fun k => .stride n r (batch_sampler.iter k)⟩, ?_, ⟨fun k j b => ?_, fun k bs h => ?_⟩, rfl⟩
  · simp only [DistributedBatchSampler, h₁, h₂, h₃, hn', if_false, Int.toNat_natCast]
    rfl
  · rw [Generator.stride_nth_iff hr, Nat.zero_add]
  · exact h.stride

theorem Adapts.skip {batch_sampler s : BatchSampler β} (h : Adapts batch_sampler s n r 0)
    (skip : ℕ) (same_length : Bool) :
    Adapts batch_sampler (SkipBatchSampler s skip same_length) n r skip := by
  refine ⟨fun k j b => ?_, fun k bs hbs => ?_⟩
  · rw [SkipBatchSampler, Generator.drop_nth_iff, h.nth, Nat.zero_add]
  · exact (h.exhausts k bs hbs).drop skip

/-- Spec of `adapt_batch_sampler`, whatever the sampler underneath yields. -/
theorem adapt_batch_sampler_spec (batch_sampler : BatchSampler β) (repeats : Bool) (skip : ℕ)
    (hr : r < n) :
    ∃ s, adapt_batch_sampler batch_sampler repeats skip n r = .ok s ∧
      Adapts (if repeats then RepeatBatchSampler batch_sampler else batch_sampler) s n r skip ∧
      s.len = batch_sampler.len / n + (if batch_sampler.len % n > r then 1 else 0) -
        (if repeats then 0 else (skip : ℤ)) := by
  set inner := if repeats then RepeatBatchSampler batch_sampler else batch_sampler with hinner
  have hlen : inner.len = batch_sampler.len := by
    rw [hinner]
    cases repeats <;> rfl
  obtain ⟨s, hs, hadapts, hslen⟩ : ∃ s, (if (n : ℤ) > 1 then DistributedBatchSampler inner n r
      else .ok inner) = .ok s ∧ Adapts inner s n r 0 ∧
      s.len = inner.len / n + (if inner.len % n > r then 1 else 0) := by
    by_cases hn : n = 1
    · obtain rfl := hn
      obtain rfl : r = 0 := by omega
      refine ⟨inner, rfl, ⟨fun k j b => by rw [Nat.zero_add, Nat.zero_add, Nat.one_mul],
        fun k bs h => ?_⟩, by simp⟩
      rw [everyNth_one]
      exact h
    · rw [if_pos (by omega)]
      exact DistributedBatchSampler_spec inner hr hn
  have hadapt : adapt_batch_sampler batch_sampler repeats skip n r =
      .ok (if skip > 0 then SkipBatchSampler s skip repeats else s) := by
    simp only [adapt_batch_sampler, ← hinner, hs]
    rfl
  refine ⟨_, hadapt, ?_, ?_⟩
  · split_ifs with hskip
    · exact hadapts.skip skip repeats
    · obtain rfl : skip = 0 := by omega
      exact hadapts
  · rw [← hlen, ← hslen]
    by_cases hskip : skip > 0
    · rw [if_pos hskip]
      cases repeats with
      | true => exact (sub_zero s.len).symm
      | false => rfl
    · obtain rfl : skip = 0 := by omega
      simp

/-! ### The composition -/

/-- The batch at position `p` of the base batches, repeated from the `k`-th pass on. -/
def BaseSampler.stream (base : BaseSampler β) (k p : ℕ) : Option β :=
  (base.batches (k + p / base.length))[p % base.length]?

/-- The number of batches of the worker `r` of `n`. -/
def BaseSampler.shard (base : BaseSampler β) (n r : ℕ) : ℕ :=
  base.length / n + if base.length % n > r then 1 else 0

theorem RepeatBatchSampler_nth_iff (base : BaseSampler β) (k p : ℕ) (b : β) :
    ((RepeatBatchSampler base.batch_sampler).iter k).Nth
      ((RepeatBatchSampler base.batch_sampler).iter k).start p b ↔ base.stream k p = some b :=
  Generator.cycle_nth_iff (fun j => Generator.ofList_exhausts _ (base.batches (k + j)))
    fun j => base.length_batches (k + j)

theorem shard_cast (base : BaseSampler β) (n r : ℕ) :
    base.batch_sampler.len / n + (if base.batch_sampler.len % n > r then 1 else 0) =
      (base.shard n r : ℤ) := by
  simp only [BaseSampler.batch_sampler, BaseSampler.shard]
  norm_cast

theorem length_everyNth_batches (base : BaseSampler β) (hr : r < n) (k : ℕ) :
    (Generator.everyNth n r 0 (base.batches k)).length = base.shard n r := by
  rw [Generator.length_everyNth hr, base.length_batches, BaseSampler.shard]

/-- What the sampler `s` of the worker `r` of `n` is to do. -/
structure Composes (base : BaseSampler β) (n r skip : ℕ) (repeats : Bool) (s : BatchSampler β) :
    Prop where
  /-- When repeating, it yields the batches at every `n`-th position of the repeated stream. -/
  stream : repeats = true → ∀ k j b, (s.iter k).Nth (s.iter k).start j b ↔
    base.stream k (r + n * (skip + j)) = some b
  /-- When not repeating, it yields all but the first `skip` batches of its part of the base
      batches, and says how many these are. -/
  finite : repeats = false → ∀ k, ∃ outs : ℕ → List β,
    (∀ r' < n, ∃ s', adapt_batch_sampler base.batch_sampler false 0 n r' = .ok s' ∧
      (s'.iter k).Exhausts (s'.iter k).start (outs r')) ∧
    ((List.range n).flatMap outs).Perm (base.batches k) ∧
    (s.iter k).Exhausts (s.iter k).start ((outs r).drop skip) ∧
    0 ≤ s.len ∧ s.len = ((outs r).drop skip).length

/-- CORRECT: the wrappers compose, exactly if a finite shard is not skipped beyond its end. There
    the pass over it just ends, but its length turns negative. -/
theorem adapt_batch_sampler_composes_iff (base : BaseSampler β) (hr : r < n) (skip : ℕ)
    (repeats : Bool) :
    (∃ s, adapt_batch_sampler base.batch_sampler repeats skip n r = .ok s ∧
      Composes base n r skip repeats s) ↔ (repeats = true ∨ skip ≤ base.shard n r) := by
  obtain ⟨s, hs, hadapts, hlen⟩ := adapt_batch_sampler_spec base.batch_sampler repeats skip hr
  rw [shard_cast] at hlen
  constructor
  · rintro ⟨s', hs', hc⟩
    obtain rfl : s = s' := Except.ok.inj (hs.symm.trans hs')
    cases repeats with
    | true => exact .inl rfl
    | false =>
      obtain ⟨-, -, -, -, hnonneg, -⟩ := hc.finite rfl 0
      simp only [Bool.false_eq_true, if_false] at hlen
      exact .inr (by omega)
  · intro hcond
    refine ⟨s, hs, ⟨?_, ?_⟩⟩
    · rintro rfl k j b
      rw [hadapts.nth, ← RepeatBatchSampler_nth_iff]
      rfl
    · rintro rfl k
      have hbase := Generator.ofList_exhausts (base.batches k) (base.batches k)
      have hskip : skip ≤ base.shard n r := by simpa using hcond
      simp only [Bool.false_eq_true, if_false] at hlen hadapts
      refine ⟨fun r' => Generator.everyNth n r' 0 (base.batches k), fun r' hr' => ?_,
        Generator.flatMap_everyNth_perm (by omega) 0 _, hadapts.exhausts k _ hbase, by omega, ?_⟩
      · obtain ⟨s', hs', hadapts', -⟩ := adapt_batch_sampler_spec base.batch_sampler false 0 hr'
        exact ⟨s', hs', hadapts'.exhausts k _ hbase⟩
      · rw [hlen, List.length_drop, length_everyNth_batches base hr]
        omega

/-- The second of two workers skips the only one of its batches. -/
theorem adapt_batch_sampler_composes_iff_two :
    (∃ s, adapt_batch_sampler (BaseSampler.batch_sampler ⟨fun _ => [0, 1, 2], 3, fun _ => rfl⟩)
      false 1 2 1 = .ok s ∧ Composes ⟨fun _ => [0, 1, 2], 3, fun _ => rfl⟩ 2 1 1 false s) ↔
      (false = true ∨ 1 ≤ BaseSampler.shard (β := ℕ) ⟨fun _ => [0, 1, 2], 3, fun _ => rfl⟩ 2 1) :=
  adapt_batch_sampler_composes_iff _ (by decide) 1 false

/-- Four batches are skipped of three. -/
theorem not_composes_beyond_the_end :
    ¬ ∃ s, adapt_batch_sampler (BaseSampler.batch_sampler ⟨fun _ => [0, 1, 2], 3, fun _ => rfl⟩)
      false 4 1 0 = .ok s ∧
      Composes (β := ℕ) ⟨fun _ => [0, 1, 2], 3, fun _ => rfl⟩ 1 0 4 false s := by
  rintro ⟨s, hs, hc⟩
  obtain ⟨-, -, -, -, hnonneg, -⟩ := hc.finite rfl 0
  cases hs
  exact absurd hnonneg (by decide)

end Determined.Pytorch
