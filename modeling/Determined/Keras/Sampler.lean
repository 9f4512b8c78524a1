import Determined.Harness.Check
import Determined.Schemes.Generator

/-! The order of the batches that a Keras data loader reads (`determined/keras/_enqueuer.py`).

    A sampler yields its shard of one epoch after the other. The global stream is the concatenation
    of the epochs, each a permutation of the dataset; `At` says where in the stream a sampler is
    about to read, and every operation of the sampler is settled by where it leads. -/

namespace Determined.Keras

open Determined.Harness Determined.Schemes

/-- `np.random.RandomState`, as far as it shuffles lists in place. -/
structure RandomState where
  State : Type
  seed : ℕ → State
  shuffle : State → List ℕ → List ℕ × State
  shuffle_perm : ∀ s l, (shuffle s l).1.Perm l

/-- `range(start, stop, step)`. -/
def pyRange (start stop step : ℕ) : List ℕ :=
  List.range' start ((stop - start + step - 1) / step) step

variable {rs : RandomState}

/-- Decides the order of batches to read from a Keras Sequence. -/
structure Sampler (rs : RandomState) where
  indices : List ℕ
  num_shards : ℕ
  shuffle : Bool
  offset : ℕ
  /-- Only there to shuffle. -/
  rng : rs.State

namespace Sampler

def this_epoch_indices (s : Sampler rs) : List ℕ := pyRange s.offset s.indices.length s.num_shards

/-- Modify the state after each epoch: recalculate this shard's offset and reshuffle the indices. -/
def end_epoch (s : Sampler rs) : Sampler rs :=
  let offset := (((s.offset : ℤ) - s.indices.length) % s.num_shards).toNat
  if s.shuffle then
    let (indices, rng) := rs.shuffle s.rng s.indices
    { s with offset := offset, indices := indices, rng := rng }
  else { s with offset := offset }

/-- What the generator `yield_epoch` yields, and the sampler when it is exhausted. The indices of an
    epoch are never out of range. -/
def yield_epoch (s : Sampler rs) : List ℕ × Sampler rs :=
  (s.this_epoch_indices.filterMap fun i => s.indices[i]?, s.end_epoch)

/-- Start in the correct epoch of shuffle, in at most so many iterations. -/
def skip_epochs : ℕ → Sampler rs → ℕ → Option (Sampler rs × ℕ)
  | 0, _, _ => none
  | n + 1, s, batches_to_skip =>
    if s.this_epoch_indices.length ≤ batches_to_skip then
      skip_epochs n s.end_epoch (batches_to_skip - s.this_epoch_indices.length)
    else some (s, batches_to_skip)

def init (rs : RandomState) (length shard_rank num_shards : ℕ) (shuffle : Bool)
    (shuffle_seed prior_batches_trained : ℕ) : Except String (Sampler rs) := do
  check.gt_eq length num_shards
    (some ("please provide a Sequence that has at least as many batches as the number of slots " ++
      "used for training"))
  let (indices, rng) :=
    if shuffle then rs.shuffle (rs.seed shuffle_seed) (List.range length)
    else (List.range length, rs.seed shuffle_seed)
  let s : Sampler rs := ⟨indices, num_shards, shuffle, shard_rank, rng⟩
  match skip_epochs (prior_batches_trained + 1) s prior_batches_trained with
  | some (s, batches_to_skip) => return { s with offset := s.offset + num_shards * batches_to_skip }
  | none => .error "the loop over the epochs to skip does not end"

/-- What a sampler yields in its next `m` epochs, and the sampler afterwards. -/
def epochs : ℕ → Sampler rs → List ℕ × Sampler rs
  | 0, s => ([], s)
  | m + 1, s =>
    let (batches, s) := s.yield_epoch
    let (rest, s) := epochs m s
    (batches ++ rest, s)

end Sampler

/-- The steps that `_launch_evaluate` passes to Keras. -/
def evaluate_steps (length size rank : ℕ) : ℕ :=
  if size > 1 then length / size + (if length % size > rank then 1 else 0) else length

/-! ### The global stream -/

/-- The indices of every epoch, and the generator that shuffles them for the next. -/
def shuffled (rs : RandomState) (length seed : ℕ) : ℕ → List ℕ × rs.State
  | 0 => rs.shuffle (rs.seed seed) (List.range length)
  | e + 1 => rs.shuffle (shuffled rs length seed e).2 (shuffled rs length seed e).1

/-- The permutation of the dataset that epoch `e` goes through. -/
def order (rs : RandomState) (length : ℕ) (shuffle : Bool) (seed e : ℕ) : List ℕ :=
  if shuffle then (shuffled rs length seed e).1 else List.range length

/-- The batch at position `p` of the stream of all epochs. -/
def stream (rs : RandomState) (length : ℕ) (shuffle : Bool) (seed p : ℕ) : Option ℕ :=
  (order rs length shuffle seed (p / length))[p % length]?

theorem order_perm (rs : RandomState) (length : ℕ) (shuffle : Bool) (seed e : ℕ) :
    (order rs length shuffle seed e).Perm (List.range length) := by
  rw [order]
  split_ifs
  · induction e with
    | zero => exact rs.shuffle_perm _ _
    | succ e ih => exact (rs.shuffle_perm _ _).trans ih
  · exact List.Perm.refl _

theorem order_length (rs : RandomState) (length : ℕ) (shuffle : Bool) (seed e : ℕ) :
    (order rs length shuffle seed e).length = length := by
  rw [(order_perm rs length shuffle seed e).length_eq, List.length_range]

/-! ### Epochs -/

/-- The batches that are left of an epoch at an offset. -/
def left (length n offset : ℕ) : ℕ := (length - offset + n - 1) / n

section

variable {length n seed e q k offset : ℕ} {shuffle : Bool} {s : Sampler rs}

/-- The sampler is in epoch `e`, about to yield the batch at position `q` of the stream. -/
structure At (s : Sampler rs) (length n : ℕ) (shuffle : Bool) (seed e q : ℕ) : Prop where
  indices : s.indices = order rs length shuffle seed e
  num_shards : s.num_shards = n
  shuffles : s.shuffle = shuffle
  rng : shuffle = true → s.rng = (shuffled rs length seed e).2
  offset_lt : s.offset < length
  position : e * length + s.offset = q

theorem lt_left_iff (hn : 0 < n) : k < left length n offset ↔ offset + n * k < length := by
  rw [left, ← Nat.succ_le_iff, Nat.le_div_iff_mul_le hn, Nat.succ_mul, Nat.mul_comm k n]
  omega

theorem left_pos (hn : 0 < n) (h : offset < length) : 0 < left length n offset :=
  (lt_left_iff hn).mpr (by simpa using h)

/-- The next offset is how far the last stride reaches into the next epoch. -/
theorem next_offset (hn : 0 < n) (h : offset < length) :
    length + (((offset : ℤ) - length) % n).toNat = offset + n * left length n offset ∧
      (((offset : ℤ) - length) % n).toNat < n := by
  obtain ⟨m, hm⟩ : ∃ m, left length n offset = m + 1 :=
    ⟨_, (Nat.succ_pred_eq_of_pos (left_pos hn h)).symm⟩
  have hge : length ≤ offset + n * (m + 1) := by
    by_contra hlt
    have := (lt_left_iff hn).mpr (Nat.not_le.mp hlt)
    omega
  have hlt : offset + n * m < length := (lt_left_iff hn).mp (by omega)
  have hmod : ((offset : ℤ) - length) % n = ((offset + n * (m + 1) - length : ℕ) : ℤ) := by
    have hcast : ((offset + n * (m + 1) - length : ℕ) : ℤ) =
        (offset : ℤ) - length + n * (m + 1 : ℕ) := by
      rw [Nat.cast_sub hge]
      push_cast
      ring
    have hsmall : ((offset + n * (m + 1) - length : ℕ) : ℤ) < n := by
      rw [Nat.mul_succ] at hge ⊢
      omega
    rw [← Int.add_mul_emod_self_left ((offset : ℤ) - length) n (m + 1 : ℕ), ← hcast,
      Int.emod_eq_of_lt (Int.natCast_nonneg _) hsmall]
  rw [hmod, Int.toNat_natCast, hm]
  rw [Nat.mul_succ] at hge ⊢
  omega

variable (hn : 0 < n) (hlen : n ≤ length) (h : At s length n shuffle seed e q)
include h

theorem At.this_epoch_indices :
    s.this_epoch_indices = List.range' s.offset (left length n s.offset) n := by
  rw [Sampler.this_epoch_indices, pyRange, h.indices, order_length, h.num_shards, left]

include hn

theorem At.yield_epoch_eq : s.yield_epoch.1 =
    (List.range' s.offset (left length n s.offset) n).map fun i => s.indices.getD i 0 := by
  rw [Sampler.yield_epoch, h.this_epoch_indices, ← List.filterMap_eq_map]
  refine List.filterMap_congr fun i hi => ?_
  obtain ⟨j, hj, rfl⟩ := List.mem_range'.mp hi
  have hlt : s.offset + n * j < s.indices.length := by
    rw [h.indices, order_length]
    exact (lt_left_iff hn).mp hj
  rw [Function.comp_apply, List.getD_eq_getElem _ _ hlt, List.getElem?_eq_getElem hlt]

theorem At.length_yield_epoch : s.yield_epoch.1.length = left length n s.offset := by
  rw [h.yield_epoch_eq hn, List.length_map, List.length_range']

/-- What is left of an epoch are the batches of the stream at every `n`-th position. -/
theorem At.yields (hk : k < left length n s.offset) :
    s.yield_epoch.1[k]? = stream rs length shuffle seed (q + n * k) := by
  have hlt := (lt_left_iff hn).mp hk
  have hq : q + n * k = s.offset + n * k + length * e := by
    rw [← h.position]
    ring
  have hdiv : (q + n * k) / length = e := by
    rw [hq, Nat.add_mul_div_left _ _ (by omega), Nat.div_eq_of_lt hlt, Nat.zero_add]
  have hmod : (q + n * k) % length = s.offset + n * k := by
    rw [hq, Nat.add_mul_mod_self_left, Nat.mod_eq_of_lt hlt]
  have hlt' : s.offset + n * k < s.indices.length := by
    rw [h.indices, order_length]
    exact hlt
  rw [h.yield_epoch_eq hn, List.getElem?_map, List.getElem?_range' hk, Option.map_some, stream,
    hdiv, hmod, ← h.indices, List.getD_eq_getElem _ _ hlt', List.getElem?_eq_getElem hlt']

include hlen

theorem At.end_epoch : At s.end_epoch length n shuffle seed (e + 1)
    (q + n * left length n s.offset) := by
  obtain ⟨hnext, hlt⟩ := next_offset hn h.offset_lt
  have hoffset : s.end_epoch.offset = (((s.offset : ℤ) - length) % n).toNat := by
    rw [Sampler.end_epoch, h.indices, order_length, h.num_shards]
    split_ifs <;> rfl
  have hposition : (e + 1) * length + s.end_epoch.offset = q + n * left length n s.offset := by
    rw [hoffset, ← h.position, Nat.succ_mul]
    omega
  have hrng := h.rng
  have hindices := h.indices
  refine ⟨?_, ?_, ?_, ?_, by omega, hposition⟩
  · rw [Sampler.end_epoch, h.shuffles]
    cases shuffle with
    | true => simp only [if_true, hrng rfl, hindices, order, shuffled]
    | false => simp only [Bool.false_eq_true, if_false, hindices, order]
  · rw [Sampler.end_epoch]
    split_ifs <;> exact h.num_shards
  · rw [Sampler.end_epoch]
    split_ifs <;> exact h.shuffles
  · rintro rfl
    rw [Sampler.end_epoch, h.shuffles]
    simp only [if_true, hrng rfl, hindices, order, shuffled]

/-- Any number of epochs. -/
theorem At.epochs (m : ℕ) : m ≤ (s.epochs m).1.length ∧ ∀ k < (s.epochs m).1.length,
    (s.epochs m).1[k]? = stream rs length shuffle seed (q + n * k) := by
  induction m generalizing s e q with
  | zero => exact ⟨le_rfl, fun k hk => absurd hk (Nat.not_lt_zero k)⟩
  | succ m ih =>
    obtain ⟨hle, hrest⟩ := ih (h.end_epoch hn hlen)
    have hlength := h.length_yield_epoch hn
    have hpos := left_pos hn h.offset_lt
    have heq : (Sampler.epochs (m + 1) s).1 =
        s.yield_epoch.1 ++ (Sampler.epochs m s.end_epoch).1 := rfl
    rw [heq, List.length_append]
    refine ⟨by omega, fun k hk => ?_⟩
    by_cases hkl : k < left length n s.offset
    · rw [List.getElem?_append_left (by omega), h.yields hn hkl]
    · rw [List.getElem?_append_right (by omega), hrest _ (by omega), hlength, Nat.add_assoc,
        ← Nat.mul_add, Nat.add_sub_cancel' (by omega)]

/-- Skipping whole epochs moves the sampler along the stream. -/
theorem At.skip_epochs {fuel b : ℕ} (hb : b < fuel) : ∃ s' b' e' q',
    Sampler.skip_epochs fuel s b = some (s', b') ∧ At s' length n shuffle seed e' q' ∧
      b' < left length n s'.offset ∧ q' + n * b' = q + n * b := by
  induction fuel generalizing s e q b with
  | zero => omega
  | succ fuel ih =>
    have hlength : s.this_epoch_indices.length = left length n s.offset := by
      rw [h.this_epoch_indices, List.length_range']
    have hpos := left_pos hn h.offset_lt
    rw [Sampler.skip_epochs, hlength]
    split_ifs with hle
    · obtain ⟨s', b', e', q', hskip, h', hlt, hq⟩ :=
        ih (h.end_epoch hn hlen) (b := b - left length n s.offset) (by omega)
      refine ⟨s', b', e', q', hskip, h', hlt, ?_⟩
      rw [hq, Nat.add_assoc, ← Nat.mul_add, Nat.add_sub_cancel' hle]
    · exact ⟨s, b, e, q, rfl, h, by omega, rfl⟩

omit h in
/-- A sampler starts after the batches that were trained before. -/
theorem init_spec {shard_rank : ℕ} (hrank : shard_rank < n) (prior : ℕ) :
    ∃ s e, Sampler.init rs length shard_rank n shuffle seed prior = .ok s ∧
      At s length n shuffle seed e (shard_rank + n * prior) := by
  have hcheck : check.gt_eq length n
      (some ("please provide a Sequence that has at least as many batches as the number of slots " ++
        "used for training")) = .ok () := check_eq_ok (decide_eq_true (by omega))
  obtain ⟨indices, rng, hstart, hfirst⟩ : ∃ indices rng,
      (if shuffle then rs.shuffle (rs.seed seed) (List.range length)
        else (List.range length, rs.seed seed)) = (indices, rng) ∧
      At (⟨indices, n, shuffle, shard_rank, rng⟩ : Sampler rs) length n shuffle seed 0 shard_rank := by
    refine ⟨_, _, rfl, ⟨?_, rfl, rfl, ?_, lt_of_lt_of_le hrank hlen, by simp⟩⟩
    · cases shuffle <;> rfl
    · rintro rfl
      rfl
  obtain ⟨s', b', e', q', hskip, h', hlt, hq⟩ := hfirst.skip_epochs hn hlen (Nat.lt_succ_self prior)
  refine ⟨{ s' with offset := s'.offset + n * b' }, e', ?_, ?_⟩
  · simp only [Sampler.init, hcheck, ok_bind, hstart, hskip]
    rfl
  · refine ⟨h'.indices, h'.num_shards, h'.shuffles, h'.rng, (lt_left_iff hn).mp hlt, ?_⟩
    rw [← hq, ← h'.position]
    ring

end

/-! ### The shards of the stream -/

variable {length n shard_rank seed : ℕ} {shuffle : Bool} {s : Sampler rs}

/-- What the sampler yields, in any number of epochs, are the batches of the stream at every `n`-th
    position from `q` on. -/
def Reads (rs : RandomState) (length n : ℕ) (shuffle : Bool) (seed q : ℕ) (s : Sampler rs) : Prop :=
  ∀ m, m ≤ (s.epochs m).1.length ∧ ∀ k < (s.epochs m).1.length,
    (s.epochs m).1[k]? = stream rs length shuffle seed (q + n * k)

/-- The first epoch of a fresh sampler has the number of steps that an evaluation asks for. -/
theorem length_first_epoch (hrank : shard_rank < n) (hlen : n ≤ length) {e : ℕ}
    (h : At s length n shuffle seed e shard_rank) :
    s.yield_epoch.1.length = evaluate_steps length n shard_rank := by
  have he : e = 0 := by
    by_contra hne
    have : length ≤ e * length := Nat.le_mul_of_pos_left _ (Nat.pos_of_ne_zero hne)
    have := h.position
    omega
  have hoffset : s.offset = shard_rank := by
    rw [← h.position, he]
    simp
  have hleft : left length n shard_rank =
      length / n + (if length % n > shard_rank then 1 else 0) := by
    refine le_antisymm (Nat.le_of_not_lt fun hlt => ?_) (Nat.le_of_not_lt fun hlt => ?_)
    · exact absurd ((Generator.lt_shard_iff hrank).mpr ((lt_left_iff (by omega)).mp hlt))
        (Nat.lt_irrefl _)
    · exact absurd ((lt_left_iff (by omega)).mpr ((Generator.lt_shard_iff hrank).mp hlt))
        (Nat.lt_irrefl _)
  rw [h.length_yield_epoch (by omega), hoffset, hleft, evaluate_steps]
  by_cases hone : n > 1
  · rw [if_pos hone]
  · obtain rfl : n = 1 := by omega
    rw [if_neg hone, Nat.mod_one, if_neg (by omega), Nat.div_one, Nat.add_zero]

/-- CORRECT: a sampler yields its shard of the stream from where the trained batches end, so that a
    resumed sampler goes on where another one stopped, every position of the stream is that of one
    batch of one shard, and an evaluation asks for as many steps as an epoch has. -/
theorem sampler_reads_stream (rs : RandomState) (hlen : n ≤ length) (hrank : shard_rank < n)
    (shuffle : Bool) (seed prior : ℕ) :
    (∀ e, (order rs length shuffle seed e).Perm (List.range length)) ∧
    (∃ s, Sampler.init rs length shard_rank n shuffle seed prior = .ok s ∧
      Reads rs length n shuffle seed (shard_rank + n * prior) s ∧
      (∀ k, ∃ s', Sampler.init rs length shard_rank n shuffle seed (prior + k) = .ok s' ∧
        ∀ m m' j, k + j < (s.epochs m).1.length → j < (s'.epochs m').1.length →
          (s'.epochs m').1[j]? = (s.epochs m).1[k + j]?) ∧
      (prior = 0 → s.yield_epoch.1.length = evaluate_steps length n shard_rank)) ∧
    ∀ p, ∃! x : ℕ × ℕ, x.1 < n ∧ x.1 + n * x.2 = p ∧ ∃ s m,
      Sampler.init rs length x.1 n shuffle seed 0 = .ok s ∧ x.2 < (s.epochs m).1.length ∧
        (s.epochs m).1[x.2]? = stream rs length shuffle seed p := by
  have hn : 0 < n := by omega
  refine ⟨order_perm rs length shuffle seed, ?_, fun p => ?_⟩
  · obtain ⟨s, e, hinit, h⟩ := @init_spec rs length n seed shuffle hn hlen shard_rank hrank prior
    refine ⟨s, hinit, h.epochs hn hlen, fun k => ?_, ?_⟩
    · obtain ⟨s', e', hinit', h'⟩ := init_spec hn hlen hrank (prior + k)
      refine ⟨s', hinit', fun m m' j hj hj' => ?_⟩
      rw [(h.epochs hn hlen m).2 _ hj, (h'.epochs hn hlen m').2 j hj']
      congr 1
      ring
    · rintro rfl
      exact length_first_epoch hrank hlen h
  · have hp := Nat.mod_add_div p n
    have hlt := Nat.mod_lt p hn
    refine ⟨(p % n, p / n), ⟨hlt, hp, ?_⟩, ?_⟩
    · obtain ⟨s, e, hinit, h⟩ := init_spec hn hlen hlt 0
      obtain ⟨hle, hreads⟩ := h.epochs hn hlen (p / n + 1)
      exact ⟨s, p / n + 1, hinit, hle, by rw [hreads _ hle, Nat.mul_zero, Nat.add_zero, hp]⟩
    · rintro ⟨r, k⟩ ⟨hr, rfl, -⟩
      rw [Nat.add_mul_mod_self_left, Nat.mod_eq_of_lt hr, Nat.add_mul_div_left _ _ hn,
        Nat.div_eq_of_lt hr, Nat.zero_add]

/-- The second of three shards of ten batches, after four of its batches; the generator reverses
    the indices in place of shuffling them. -/
theorem sampler_reads_stream_ten :
    let rs : RandomState := ⟨Unit, fun _ => (), fun _ l => (l.reverse, ()), fun _ l => l.reverse_perm⟩
    ∃ s, Sampler.init rs 10 1 3 true 0 4 = .ok s ∧ Reads rs 10 3 true 0 (1 + 3 * 4) s := by
  obtain ⟨-, ⟨s, hinit, hreads, -⟩, -⟩ := sampler_reads_stream
    ⟨Unit, fun _ => (), fun _ l => (l.reverse, ()), fun _ l => l.reverse_perm⟩
    (by decide : 3 ≤ 10) (by decide : 1 < 3) true 0 4
  exact ⟨s, hinit, hreads⟩

end Determined.Keras
