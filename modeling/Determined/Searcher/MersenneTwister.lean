import Determined.Schemes.ShiftSequences

/-! The generator of the master's random numbers (`pkg/nprand/nprand.go`): the Mersenne Twister, as
    Python and Numpy run it.

    The generator keeps a block of 624 words and replaces the block in place once its words are used
    up. The words of all blocks, one after another, form one sequence with a recurrence that is linear
    over the bits (`Recurs`); what is drawn are these words, tempered. From the recurrence follows
    that no bit of the words drawn is set for good, which lets every rejection loop end. -/

namespace Determined.Nprand
open Determined.Schemes Polynomial

def stateLen : ℕ := 624

/-! ### The generator -/

def mtN : ℕ := 624
def mtM : ℕ := 397
def matrixA : UInt32 := 0x9908b0df
def upperMask : UInt32 := 0x80000000
def lowerMask : UInt32 := 0x7fffffff

/-- The state of the random number generator. -/
structure State where
  key : List UInt32
  pos : ℕ
  length_key : key.length = stateLen
  pos_le : pos ≤ stateLen

/-- The words that a seed is followed by, from a position on. -/
def seedFrom : ℕ → ℕ → UInt32 → List UInt32
  | 0, _, _ => []
  | n + 1, pos, seed =>
    seed :: seedFrom n (pos + 1) ((1812433253 : UInt32) * (seed ^^^ (seed >>> 30)) + UInt32.ofNat pos + 1)

theorem length_seedFrom (n pos : ℕ) (seed : UInt32) : (seedFrom n pos seed).length = n := by
  induction n generalizing pos seed with
  | zero => rfl
  | succ n ih => rw [seedFrom, List.length_cons, ih]

/-- A new seeded state. -/
def State.new (seed : UInt32) : State where
  key := seedFrom stateLen 0 seed
  pos := stateLen
  length_key := length_seedFrom ..
  pos_le := le_rfl

/-- The word that follows from the upper bit of one word, the lower bits of the next and a third. -/
def twist (upper lower mid : UInt32) : UInt32 :=
  let y := (upper &&& upperMask) ||| (lower &&& lowerMask)
  mid ^^^ (y >>> 1) ^^^ (-(y &&& 1) &&& matrixA)

/-- Replace the word at an index. -/
def twistAt (next mid : ℕ) (key : List UInt32) (i : ℕ) : List UInt32 :=
  key.set i (twist (key.getD i 0) (key.getD next 0) (key.getD mid 0))

/-- Replace the block. -/
def regenerate (key : List UInt32) : List UInt32 :=
  let key := (List.range (mtN - mtM)).foldl (fun key i => twistAt (i + 1) (i + mtM) key i) key
  let key := (List.range' (mtN - mtM) (mtM - 1)).foldl
    (fun key i => twistAt (i + 1) (i - (mtN - mtM)) key i) key
  twistAt 0 (mtM - 1) key (mtN - 1)

theorem length_foldl_twistAt (next mid : ℕ → ℕ) (is : List ℕ) (key : List UInt32) :
    (is.foldl (fun key i => twistAt (next i) (mid i) key i) key).length = key.length := by
  induction is generalizing key with
  | nil => rfl
  | cons i is ih => rw [List.foldl_cons, ih, twistAt, List.length_set]

theorem length_regenerate (key : List UInt32) : (regenerate key).length = key.length := by
  rw [regenerate, twistAt, List.length_set, length_foldl_twistAt (· + 1) (· - (mtN - mtM)),
    length_foldl_twistAt (· + 1) (· + mtM)]

def temper (y : UInt32) : UInt32 :=
  let y := y ^^^ (y >>> 11)
  let y := y ^^^ ((y <<< 7) &&& 0x9d2c5680)
  let y := y ^^^ ((y <<< 15) &&& 0xefc60000)
  y ^^^ (y >>> 18)

/-- The block and the position in it that the next word is drawn from. -/
def State.refreshed (s : State) : List UInt32 × ℕ :=
  if s.pos = stateLen then (regenerate s.key, 0) else (s.key, s.pos)

theorem State.refreshed_spec (s : State) :
    s.refreshed.1.length = stateLen ∧ s.refreshed.2 < stateLen := by
  have hle := s.pos_le
  rw [refreshed]
  split
  · refine ⟨?_, Nat.succ_pos 623⟩
    rw [length_regenerate, s.length_key]
  · exact ⟨s.length_key, by omega⟩

/-- `Bits32`: 32 bits of randomness. -/
def State.bits32 (s : State) : UInt32 × State :=
  (temper (s.refreshed.1.getD s.refreshed.2 0),
    ⟨s.refreshed.1, s.refreshed.2 + 1, s.refreshed_spec.1, s.refreshed_spec.2⟩)

/-- The next so many words. -/
def State.words : ℕ → State → List UInt32
  | 0, _ => []
  | n + 1, s => s.bits32.1 :: words n s.bits32.2

/-! ### The sequence of words -/

/-- Every word follows from three words of the block before it. -/
def Recurs (x : ℕ → UInt32) : Prop := ∀ n, x (n + mtN) = twist (x n) (x (n + 1)) (x (n + mtM))

/-- The words of a block and of those it is replaced by. -/
def untempered (key : List UInt32) (n : ℕ) : UInt32 :=
  if n < mtN then key.getD n 0
  else twist (untempered key (n - mtN)) (untempered key (n - mtN + 1))
    (untempered key (n - mtN + mtM))
termination_by n
decreasing_by all_goals simp only [mtN, mtM] at *; omega

theorem recurs_untempered (key : List UInt32) : Recurs (untempered key) := by
  intro n
  rw [untempered, if_neg (by omega), Nat.add_sub_cancel]

theorem untempered_of_lt (key : List UInt32) {n : ℕ} (h : n < mtN) :
    untempered key n = key.getD n 0 := by
  rw [untempered, if_pos h]

variable {x : ℕ → UInt32} {key : List UInt32}

/-- So many words of the block are replaced. -/
structure Replaced (x : ℕ → UInt32) (i : ℕ) (key : List UInt32) : Prop where
  length : key.length = mtN
  getD : ∀ j < mtN, key.getD j 0 = if j < i then x (j + mtN) else x j

theorem Replaced.twistAt (hx : Recurs x) {i next mid : ℕ} (h : Replaced x i key) (hi : i < mtN)
    (hnext : key.getD next 0 = x (i + 1)) (hmid : key.getD mid 0 = x (i + mtM)) :
    Replaced x (i + 1) (twistAt next mid key i) := by
  have hself : key.getD i 0 = x i := by rw [h.getD i hi, if_neg (lt_irrefl i)]
  refine ⟨by rw [Nprand.twistAt, List.length_set, h.length], fun j hj => ?_⟩
  rw [Nprand.twistAt, hself, hnext, hmid, ← hx, List.getD_eq_getElem?_getD, List.getElem?_set]
  by_cases heq : i = j
  · subst heq
    rw [if_pos rfl, if_pos (h.length ▸ hj), if_pos (Nat.lt_succ_self i), Option.getD_some]
  · rw [if_neg heq, ← List.getD_eq_getElem?_getD, h.getD j hj]
    exact if_congr (by omega) rfl rfl

theorem Replaced.foldl {f : List UInt32 → ℕ → List UInt32} {i : ℕ} (n : ℕ) (h : Replaced x i key)
    (hf : ∀ j key, i ≤ j → j < i + n → Replaced x j key → Replaced x (j + 1) (f key j)) :
    Replaced x (i + n) ((List.range' i n).foldl f key) := by
  induction n with
  | zero => exact h
  | succ n ih =>
    rw [List.range'_concat, List.foldl_append, List.foldl_cons, List.foldl_nil, one_mul]
    exact hf (i + n) _ (Nat.le_add_right ..) (by omega)
      (ih fun j key hj hjn => hf j key hj (by omega))

/-- The new block is the next one of the sequence. -/
theorem replaced_regenerate (hx : Recurs x) (h : Replaced x 0 key) :
    Replaced x mtN (regenerate key) := by
  have hfirst : Replaced x (0 + (mtN - mtM))
      ((List.range' 0 (mtN - mtM)).foldl (fun key i => twistAt (i + 1) (i + mtM) key i) key) := by
    refine h.foldl _ fun j key _ hj hkey => hkey.twistAt hx ?_ ?_ ?_
    all_goals simp only [mtN, mtM] at *
    · omega
    · rw [hkey.getD _ (by simp only [mtN]; omega), if_neg (by omega)]
    · rw [hkey.getD _ (by simp only [mtN]; omega), if_neg (by omega)]
  have hsecond := hfirst.foldl (f := fun key i => twistAt (i + 1) (i - (mtN - mtM)) key i) (mtM - 1)
    fun j key hlow hj hkey => by
      refine hkey.twistAt hx ?_ ?_ ?_
      all_goals simp only [mtN, mtM] at *
      · omega
      · rw [hkey.getD _ (by simp only [mtN]; omega), if_neg (by omega)]
      · rw [hkey.getD _ (by simp only [mtN]; omega), if_pos (by omega)]
        exact congrArg x (by simp only [mtN]; omega)
  rw [regenerate, List.range_eq_range']
  refine hsecond.twistAt hx (by decide) ?_ ?_
  · rw [hsecond.getD _ (by decide), if_pos (by decide)]
    rfl
  · rw [hsecond.getD _ (by decide), if_pos (by decide)]
    rfl

/-- The state stands before this word of the sequence. -/
def Follows (x : ℕ → UInt32) (t : ℕ) (s : State) : Prop :=
  ∃ start, start + s.pos = t ∧ ∀ j < mtN, s.key.getD j 0 = x (start + j)

theorem exists_follows (s : State) : ∃ x t, Recurs x ∧ Follows x t s :=
  ⟨untempered s.key, s.pos, recurs_untempered s.key, 0, Nat.zero_add _, fun j hj => by
    rw [Nat.zero_add, untempered_of_lt s.key hj]⟩

theorem Recurs.drop (hx : Recurs x) (start : ℕ) : Recurs fun n => x (start + n) := by
  intro n
  have h := hx (start + n)
  rwa [Nat.add_assoc, Nat.add_assoc, Nat.add_assoc] at h

theorem Follows.refreshed (hx : Recurs x) {t : ℕ} {s : State} (h : Follows x t s) :
    ∃ start, start + s.refreshed.2 = t ∧ ∀ j < mtN, s.refreshed.1.getD j 0 = x (start + j) := by
  obtain ⟨start, ht, hkey⟩ := h
  rw [State.refreshed]
  split
  · rename_i hpos
    have hblock : Replaced (fun n => x (start + n)) 0 s.key :=
      ⟨s.length_key, fun j hj => by rw [if_neg (Nat.not_lt_zero j), hkey j hj]⟩
    refine ⟨start + mtN, by rw [← ht, hpos]; rfl, fun j hj => ?_⟩
    rw [(replaced_regenerate (hx.drop start) hblock).getD j hj, if_pos hj]
    exact congrArg x (by omega)
  · exact ⟨start, ht, hkey⟩

/-- A word drawn is a word of the sequence, tempered. -/
theorem Follows.bits32 (hx : Recurs x) {t : ℕ} {s : State} (h : Follows x t s) :
    s.bits32.1 = temper (x t) ∧ Follows x (t + 1) s.bits32.2 := by
  obtain ⟨start, ht, hkey⟩ := h.refreshed hx
  refine ⟨?_, start, ?_, hkey⟩
  · rw [State.bits32, hkey _ s.refreshed_spec.2, ht]
  · rw [← ht]
    rfl

theorem Follows.words (hx : Recurs x) (n : ℕ) : ∀ {t : ℕ} {s : State}, Follows x t s →
    s.words n = (List.range n).map fun i => temper (x (t + i)) := by
  induction n with
  | zero => exact fun _ => rfl
  | succ n ih =>
    intro t s h
    obtain ⟨hword, hnext⟩ := h.bits32 hx
    rw [State.words, hword, ih hnext, List.range_succ_eq_map, List.map_cons, List.map_map]
    refine congrArg _ (List.map_congr_left fun i _ => ?_)
    exact congrArg (fun n => temper (x n)) (by simp only [Nat.succ_eq_add_one]; omega)

/-! ### Bits -/

/-- A bit of a word. -/
def bit (j : ℕ) (w : UInt32) : ZMod 2 := if w.toNat.testBit j then 1 else 0

theorem bit_xor (j : ℕ) (v w : UInt32) : bit j (v ^^^ w) = bit j v + bit j w := by
  rw [bit, bit, bit, UInt32.toNat_xor, Nat.testBit_xor]
  cases v.toNat.testBit j <;> cases w.toNat.testBit j <;> decide

theorem bit_and (j : ℕ) (v w : UInt32) : bit j (v &&& w) = bit j w * bit j v := by
  rw [bit, bit, bit, UInt32.toNat_and, Nat.testBit_and]
  cases v.toNat.testBit j <;> cases w.toNat.testBit j <;> decide

theorem bit_shiftRight (j : ℕ) (w : UInt32) {k : UInt32} (hk : k.toNat < 32) :
    bit j (w >>> k) = bit (k.toNat + j) w := by
  rw [bit, bit, UInt32.toNat_shiftRight, Nat.mod_eq_of_lt hk, Nat.testBit_shiftRight]

theorem bit_shiftLeft (j : ℕ) (w : UInt32) {k : UInt32} (hk : k.toNat < 32) :
    bit j (w <<< k) = if j < 32 ∧ k.toNat ≤ j then bit (j - k.toNat) w else 0 := by
  rw [bit, bit, UInt32.toNat_shiftLeft, Nat.mod_eq_of_lt hk, Nat.testBit_mod_two_pow,
    Nat.testBit_shiftLeft]
  by_cases hj : j < 32 <;> by_cases hkj : k.toNat ≤ j <;> simp [hj, hkj]

theorem bit_of_le {j : ℕ} (hj : 32 ≤ j) (w : UInt32) : bit j w = 0 := by
  rw [bit, if_neg]
  rw [Nat.testBit_lt_two_pow (w.toNat_lt.trans_le (Nat.pow_le_pow_right two_pos hj))]
  exact Bool.false_ne_true

/-- The word that `twist` shifts: one bit of the first word and 31 of the second. -/
theorem bit_joined (j : ℕ) (upper lower : UInt32) :
    bit j ((upper &&& upperMask) ||| (lower &&& lowerMask)) =
      if j < 31 then bit j lower else if j = 31 then bit j upper else 0 := by
  have hupper : upperMask.toNat = 2 ^ 31 := rfl
  have hlower : lowerMask.toNat = 2 ^ 31 - 1 := rfl
  rw [bit, UInt32.toNat_or, UInt32.toNat_and, UInt32.toNat_and, Nat.testBit_or, Nat.testBit_and,
    Nat.testBit_and, hupper, hlower, Nat.testBit_two_pow, Nat.testBit_two_pow_sub_one]
  rcases lt_trichotomy j 31 with hj | rfl | hj
  · simp [hj, hj.ne', bit]
  · simp [bit]
  · simp [hj.ne, hj.ne', hj.not_gt]

theorem neg_lowest_and (y : UInt32) :
    (-(y &&& 1) &&& matrixA) = if y.toNat.testBit 0 then matrixA else 0 := by
  have hone : (y &&& 1).toNat = y.toNat % 2 := by
    rw [UInt32.toNat_and]
    exact Nat.and_one_is_mod _
  rw [Nat.testBit_zero]
  rcases Nat.mod_two_eq_zero_or_one y.toNat with h | h
  · have hy : y &&& 1 = 0 := UInt32.toNat_inj.mp (hone.trans h)
    rw [hy, h]
    rfl
  · have hy : y &&& 1 = 1 := UInt32.toNat_inj.mp (hone.trans h)
    rw [hy, h]
    decide

theorem bit_twist (j : ℕ) (upper lower mid : UInt32) :
    bit j (twist upper lower mid) = bit j mid +
      bit (1 + j) ((upper &&& upperMask) ||| (lower &&& lowerMask)) + bit 0 lower * bit j matrixA := by
  have hzero : bit 0 lower = bit 0 ((upper &&& upperMask) ||| (lower &&& lowerMask)) := by
    rw [bit_joined, if_pos (by omega)]
  have hone : (1 : UInt32).toNat = 1 := rfl
  rw [twist, neg_lowest_and, bit_xor, bit_xor, bit_shiftRight j _ (by decide), hone, hzero]
  refine congrArg _ ?_
  rw [bit.eq_def 0]
  split
  · rw [one_mul]
  · rw [zero_mul]
    simp [bit]

/-! ### No bit is set for good -/

/-- The recurrence of the words, apart from what is twisted. -/
noncomputable def blockPoly : (ZMod 2)[X] := X ^ mtN + X ^ mtM

theorem applied_blockPoly (hx : Recurs x) (j n : ℕ) : applied blockPoly (fun n => bit j (x n)) n =
    bit (1 + j) ((x n &&& upperMask) ||| (x (n + 1) &&& lowerMask)) +
      bit j matrixA * bit 0 (x (n + 1)) := by
  have hword : bit j (x (n + mtN)) = _ :=
    (congrArg (bit j) (hx n)).trans (bit_twist j (x n) (x (n + 1)) (x (n + mtM)))
  unfold blockPoly
  rw [applied, map_add, LinearMap.add_apply, Pi.add_apply, ← applied, ← applied, applied_X_pow,
    applied_X_pow]
  refine (congrArg (· + bit j (x (n + mtM))) hword).trans ?_
  generalize bit j (x (n + mtM)) = mid
  rw [add_comm, ← add_assoc, ← add_assoc, CharTwo.add_self_eq_zero, zero_add, mul_comm]

/-- One polynomial annihilates the bits of the words, whatever the words are. -/
theorem exists_annihilator_words (hx : Recurs x) : ∃ p : (ZMod 2)[X], p.eval 1 = 1 ∧
    ∀ j, (fun n => bit j (x n)) ∈ annihilated p := by
  have htop : bit 31 matrixA = 1 := by decide
  obtain ⟨p, hp, htopbit, hbits⟩ := exists_annihilator (E := blockPoly) (m := 30)
    (a := fun j => bit j matrixA) (b := fun j n => bit j (x n)) (z := fun n => bit 31 (x n))
    (by
      ext n
      rw [applied_blockPoly hx, applied_X, bit_joined, if_neg (by decide), if_neg (by decide), htop,
        zero_add, one_mul])
    (by
      intro j hj
      ext n
      rw [applied_blockPoly hx, Pi.add_apply, Pi.smul_apply, applied_X, applied_X, bit_joined,
        if_pos (by omega), smul_eq_mul, Nat.add_comm 1 j])
    (by
      ext n
      rw [applied_blockPoly hx, Pi.add_apply, Pi.smul_apply, applied_X, bit_joined,
        if_neg (by decide), if_pos rfl, smul_eq_mul])
    (by
      unfold blockPoly
      rw [eval_add, eval_pow, eval_pow, eval_X, one_pow, one_pow]
      decide)
  refine ⟨p, hp, fun j => ?_⟩
  rcases lt_trichotomy j 31 with hj | rfl | hj
  · exact hbits j (by omega)
  · exact htopbit
  · have hzero : (fun n => bit j (x n)) = 0 := funext fun n => bit_of_le hj (x n)
    rw [hzero]
    exact Submodule.zero_mem _

/-- The bits of words computed from words whose bits lie in a space lie in it as well. -/
def Within (V : Submodule (ZMod 2) (ℕ → ZMod 2)) (x : ℕ → UInt32) : Prop :=
  ∀ j, (fun n => bit j (x n)) ∈ V

section Within

variable {V : Submodule (ZMod 2) (ℕ → ZMod 2)} {y : ℕ → UInt32}

theorem Within.xor (hx : Within V x) (hy : Within V y) : Within V fun n => x n ^^^ y n := by
  intro j
  simp only [bit_xor]
  exact V.add_mem (hx j) (hy j)

theorem Within.and (hx : Within V x) (w : UInt32) : Within V fun n => x n &&& w := by
  intro j
  simp only [bit_and]
  exact V.smul_mem (bit j w) (hx j)

theorem Within.shiftRight (hx : Within V x) {k : UInt32} (hk : k.toNat < 32) :
    Within V fun n => x n >>> k := by
  intro j
  simp only [bit_shiftRight j _ hk]
  exact hx (k.toNat + j)

theorem Within.shiftLeft (hx : Within V x) {k : UInt32} (hk : k.toNat < 32) :
    Within V fun n => x n <<< k := by
  intro j
  simp only [bit_shiftLeft j _ hk]
  split
  · exact hx (j - k.toNat)
  · exact V.zero_mem

theorem Within.temper (hx : Within V x) : Within V fun n => temper (x n) := by
  have h₁ := hx.xor (hx.shiftRight (k := 11) (by decide))
  have h₂ := h₁.xor ((h₁.shiftLeft (k := 7) (by decide)).and 0x9d2c5680)
  have h₃ := h₂.xor ((h₂.shiftLeft (k := 15) (by decide)).and 0xefc60000)
  exact h₃.xor (h₃.shiftRight (k := 18) (by decide))

end Within

theorem testBit_of_bit_ne_one {j : ℕ} {w : UInt32} (h : bit j w ≠ 1) : w.toNat.testBit j = false := by
  rw [bit] at h
  split at h
  · exact absurd rfl h
  · rename_i hbit
    exact Bool.eq_false_iff.mpr hbit

/-- Sooner or later a word is drawn with this bit not set. -/
theorem exists_testBit_false (hx : Recurs x) (t j : ℕ) :
    ∃ n, (temper (x (t + n))).toNat.testBit j = false := by
  obtain ⟨p, hp, hbits⟩ := exists_annihilator_words (hx.drop t)
  have hwithin : Within (annihilated p) fun n => x (t + n) := hbits
  obtain ⟨n, -, hn⟩ := exists_ne_one (by rw [hp]; exact one_ne_zero) (hwithin.temper j) 0
  exact ⟨n, testBit_of_bit_ne_one hn⟩

/-- And so it is if only every second word is looked at. -/
theorem exists_testBit_false_everySecond (hx : Recurs x) (t j : ℕ) :
    ∃ n, (temper (x (t + 2 * n))).toNat.testBit j = false := by
  obtain ⟨p, hp, hbits⟩ := exists_annihilator_words (hx.drop t)
  have hwithin : Within (annihilated p) fun n => x (t + n) := hbits
  obtain ⟨n, -, hn⟩ := exists_ne_one (by rw [hp]; exact one_ne_zero)
    (annihilated_everySecond (hwithin.temper j)) 0
  exact ⟨n, testBit_of_bit_ne_one hn⟩

/-! ### Every word may be drawn -/

theorem eq_of_bits {v w : UInt32} (h : ∀ j, bit j v = bit j w) : v = w := by
  refine UInt32.toNat_inj.mp (Nat.eq_of_testBit_eq fun j => ?_)
  have hj := h j
  rw [bit, bit] at hj
  cases hv : v.toNat.testBit j <;> cases hw : w.toNat.testBit j <;> simp_all

theorem bit_zero (j : ℕ) : bit j 0 = 0 := by
  simp [bit]

section Additive

variable {f : UInt32 → UInt32} (hadd : ∀ v w, f (v ^^^ w) = f v ^^^ f w)
include hadd

theorem iterate_additive (i : ℕ) (v w : UInt32) : f^[i] (v ^^^ w) = f^[i] v ^^^ f^[i] w := by
  induction i generalizing v w with
  | zero => rfl
  | succ i ih => rw [Function.iterate_succ_apply, hadd, ih, ← Function.iterate_succ_apply,
      ← Function.iterate_succ_apply]

/-- Mixing a word with its image, two to the power `k` times. -/
theorem iterate_mix (k : ℕ) (y : UInt32) :
    (fun y => y ^^^ f y)^[2 ^ k] y = y ^^^ f^[2 ^ k] y := by
  induction k generalizing y with
  | zero => rfl
  | succ k ih =>
    have htwice : 2 ^ (k + 1) = 2 ^ k + 2 ^ k := by omega
    rw [htwice, Function.iterate_add_apply, ih, ih, iterate_additive hadd, ← UInt32.xor_assoc,
      UInt32.xor_assoc y, UInt32.xor_self, UInt32.xor_zero, ← Function.iterate_add_apply]

/-- A word can be told from its mix with an image that vanishes when it is taken again and again. -/
theorem mix_surjective (hzero : ∀ y, f^[8] y = 0) : Function.Surjective fun y => y ^^^ f y := by
  intro w
  refine ⟨(fun y => y ^^^ f y)^[7] w, ?_⟩
  have hiterate : (fun y => y ^^^ f y)^[8] w = w ^^^ f^[8] w := iterate_mix hadd 3 w
  rw [hzero, UInt32.xor_zero] at hiterate
  exact (Function.iterate_succ_apply' (fun y => y ^^^ f y) 7 w).symm.trans hiterate

end Additive

theorem mix_shiftRight_surjective {k : UInt32} (hk : k.toNat < 32) (hlow : 4 ≤ k.toNat) :
    Function.Surjective fun y : UInt32 => y ^^^ (y >>> k) := by
  refine mix_surjective (f := fun y => y >>> k) (fun v w => eq_of_bits fun j => ?_) fun y =>
    eq_of_bits fun j => ?_
  · rw [bit_xor, bit_shiftRight j _ hk, bit_shiftRight j _ hk, bit_shiftRight j _ hk, bit_xor]
  · have hshift : ∀ i j, bit j ((fun y : UInt32 => y >>> k)^[i] y) = bit (k.toNat * i + j) y := by
      intro i
      induction i with
      | zero => exact fun j => by rw [Nat.mul_zero, Nat.zero_add]; rfl
      | succ i ih =>
        intro j
        rw [Function.iterate_succ_apply', bit_shiftRight j _ hk, ih]
        exact congrArg (bit · y) (by rw [Nat.mul_succ, Nat.add_assoc])
    rw [hshift, bit_zero]
    exact bit_of_le (by omega) y

theorem mix_shiftLeft_surjective {k : UInt32} (hk : k.toNat < 32) (hlow : 4 ≤ k.toNat) (c : UInt32) :
    Function.Surjective fun y : UInt32 => y ^^^ ((y <<< k) &&& c) := by
  refine mix_surjective (f := fun y => (y <<< k) &&& c) (fun v w => eq_of_bits fun j => ?_) fun y =>
    eq_of_bits fun j => ?_
  · rw [bit_and, bit_xor, bit_and, bit_and, bit_shiftLeft j _ hk, bit_shiftLeft j _ hk,
      bit_shiftLeft j _ hk, ← mul_add]
    split
    · rw [bit_xor]
    · rw [add_zero]
  · have hshift : ∀ i j, j < k.toNat * i →
        bit j ((fun y : UInt32 => (y <<< k) &&& c)^[i] y) = 0 := by
      intro i
      induction i with
      | zero => exact fun j hj => absurd hj (by omega)
      | succ i ih =>
        intro j hj
        rw [Nat.mul_succ] at hj
        rw [Function.iterate_succ_apply', bit_and, bit_shiftLeft j _ hk]
        split
        · rw [ih _ (by omega), mul_zero]
        · rw [mul_zero]
    rw [bit_zero]
    rcases Nat.lt_or_ge j 32 with hj | hj
    · exact hshift 8 j (by omega)
    · exact bit_of_le hj _

theorem temper_surjective : Function.Surjective temper := by
  have h₁ := mix_shiftRight_surjective (k := 11) (by decide) (by decide)
  have h₂ := mix_shiftLeft_surjective (k := 7) (by decide) (by decide) 0x9d2c5680
  have h₃ := mix_shiftLeft_surjective (k := 15) (by decide) (by decide) 0xefc60000
  have h₄ := mix_shiftRight_surjective (k := 18) (by decide) (by decide)
  exact h₄.comp (h₃.comp (h₂.comp h₁))

theorem length_block (v w : UInt32) : (v :: w :: List.replicate 622 0).length = stateLen := by
  rw [List.length_cons, List.length_cons, List.length_replicate]
  rfl

/-- Whatever two words are to be drawn next, some state gives them. -/
theorem exists_words (v w : UInt32) : ∃ s : State, s.words 2 = [v, w] := by
  obtain ⟨v', rfl⟩ := temper_surjective v
  obtain ⟨w', rfl⟩ := temper_surjective w
  exact ⟨⟨v' :: w' :: List.replicate 622 0, 0, length_block v' w', Nat.zero_le _⟩, rfl⟩

end Determined.Nprand
