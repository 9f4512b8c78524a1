import Determined.Schemes.Ensures
import Mathlib

/-! The random numbers of the master (`pkg/nprand/nprand.go`). The words of the generator are given:
    a computation draws from those to come, and what holds for all words holds for all seeds.

    Floats are elements of an ordered field. -/

namespace Determined.Nprand

open Determined.Schemes

variable {K : Type}

/-- Why a computation does not return. -/
inductive Halt (K : Type) where
  /-- nprand Intn: n < 0. -/
  | intn (n : Int64)
  /-- nprand Uniform: high <= low. -/
  | uniform (high low : K)
  /-- Another panic. -/
  | panic (msg : String)
  /-- All the words given were drawn, and it goes on drawing. -/
  | words
  deriving DecidableEq

/-- A computation that draws from the words to come. -/
abbrev Draws (K β : Type) := StateT (List UInt32) (Except (Halt K)) β

/-- 32 bits of randomness. -/
def bits32 : Draws K UInt32
  | [] => .error .words
  | w :: words => .ok (w, words)

/-- The smallest bit mask that is at least the limit. -/
def mask (limit : UInt64) : UInt64 :=
  let mask := limit
  let mask := mask ||| mask >>> 1
  let mask := mask ||| mask >>> 2
  let mask := mask ||| mask >>> 4
  let mask := mask ||| mask >>> 8
  let mask := mask ||| mask >>> 16
  mask ||| mask >>> 32

/-- Draw words until one is within the limit. -/
def draw32 (limit : UInt64) : Draws K UInt64
  | [] => .error .words
  | w :: words =>
    let val := w.toUInt64 &&& mask limit
    if val ≤ limit then .ok (val, words) else draw32 limit words

/-- Draw pairs of words until one is within the limit. -/
def draw64 (limit : UInt64) : Draws K UInt64
  | upper :: lower :: words =>
    let val := (upper.toUInt64 <<< 32 ||| lower.toUInt64) &&& mask limit
    if val ≤ limit then .ok (val, words) else draw64 limit words
  | _ => .error .words

/-- Bits of randomness in `[0, limit]`. -/
def bitsLimit (limit : UInt64) : Draws K UInt64 :=
  if limit = 0 then pure 0
  -- If we only need 32 bits or less, only generate 32 bits of randomness.
  else if limit ≤ 0xffffffff then draw32 limit
  else draw64 limit

/-- A random int in `[0, n)`. -/
def intn (n : Int64) : Draws K Int64 :=
  if n < 0 then fun _ => .error (.intn n)
  else do return (← bitsLimit (n.toUInt64 - 1)).toInt64

/-! ### What is drawn -/

theorem draw32_le (limit : UInt64) : Ensures (draw32 (K := K) limit) (· ≤ limit) := by
  intro words
  induction words with
  | nil => rintro r t ⟨⟩
  | cons w words ih =>
    intro r t h
    rw [draw32] at h
    split_ifs at h with hle
    · cases h
      exact hle
    · exact ih r t h

theorem draw64_le (limit : UInt64) : Ensures (draw64 (K := K) limit) (· ≤ limit) := by
  intro words
  fun_induction draw64 (K := K) limit words with
  | case1 upper lower words val hle =>
    rintro r t ⟨⟩
    exact hle
  | case2 upper lower words val hlt ih => exact ih
  | case3 words hpair => rintro r t ⟨⟩

theorem bitsLimit_le (limit : UInt64) : Ensures (bitsLimit (K := K) limit) (· ≤ limit) := by
  rw [bitsLimit]
  split_ifs
  · exact ensures_pure UInt64.zero_le
  · exact draw32_le limit
  · exact draw64_le limit

theorem toInt64_mem {n : Int64} (hn : 0 < n) {r : UInt64} (hr : r ≤ n.toUInt64 - 1) :
    0 ≤ r.toInt64 ∧ r.toInt64 < n := by
  have hnat : (n.toUInt64.toNat : ℤ) = n.toInt := by
    rw [Int64.toNat_toUInt64_of_le (Int64.le_of_lt hn), Int64.cast_toNatClampNeg _ (Int64.le_of_lt hn)]
  have hpos : 0 < n.toInt := Int64.lt_iff_toInt_lt.mp hn
  have hlt := n.toInt_lt
  have hle : r.toNat ≤ n.toUInt64.toNat - 1 := by
    have hone : (1 : UInt64) ≤ n.toUInt64 := by
      rw [UInt64.le_iff_toNat_le]
      change 1 ≤ n.toUInt64.toNat
      omega
    rw [UInt64.le_iff_toNat_le, UInt64.toNat_sub_of_le _ _ hone] at hr
    exact hr
  have hr' : r.toInt64.toInt = r.toNat :=
    BitVec.toInt_eq_toNat_of_lt (x := r.toBitVec) (by rw [UInt64.toNat_toBitVec]; omega)
  rw [Int64.le_iff_toInt_le, Int64.lt_iff_toInt_lt, hr']
  exact ⟨Int.natCast_nonneg _, by omega⟩

/-- What is drawn is below the bound, which was not negative. -/
theorem intn_mem {n : Int64} (hn : n ≠ 0) :
    Ensures (intn (K := K) n) fun r => 0 < n ∧ 0 ≤ r ∧ r < n := by
  rw [intn]
  split_ifs with hneg
  · exact ensures_throw _
  · have hpos : 0 < n := Int64.lt_of_le_of_ne (Int64.not_lt.mp hneg) (Ne.symm hn)
    exact (bitsLimit_le _).bind fun r hr => ensures_pure ⟨hpos, toInt64_mem hpos hr⟩

/-! ### Floats -/

variable [Field K] [LinearOrder K]

/-- A random float in `[0, 1)`. -/
def unitInterval : Draws K K := do
  let a ← bits32
  let b ← bits32
  return (((a >>> 5).toNat : K) * (1 <<< 26 : ℕ) + ((b >>> 6).toNat : K)) / (1 <<< 53 : ℕ)

/-- A random float in `[low, high)`. -/
def uniform (low high : K) : Draws K K :=
  if high ≤ low then fun _ => .error (.uniform high low)
  else do return low + (high - low) * (← unitInterval)

/-- 27 and 26 bits make 53. -/
theorem bits53_lt (a b : UInt32) : (a >>> 5).toNat * 2 ^ 26 + (b >>> 6).toNat < 2 ^ 53 := by
  have ha : (a >>> 5).toNat = a.toNat / 2 ^ 5 := Nat.shiftRight_eq_div_pow a.toNat 5
  have hb : (b >>> 6).toNat = b.toNat / 2 ^ 6 := Nat.shiftRight_eq_div_pow b.toNat 6
  have := a.toNat_lt
  have := b.toNat_lt
  rw [ha, hb]
  omega

theorem unitInterval_mem [IsStrictOrderedRing K] :
    Ensures (unitInterval (K := K)) fun u => 0 ≤ u ∧ u < 1 := by
  refine (ensures_any _).bind fun a _ => (ensures_any _).bind fun b _ => ensures_pure ?_
  have hpos : (0 : K) < (1 <<< 53 : ℕ) := by exact_mod_cast Nat.two_pow_pos 53
  refine ⟨by positivity, ?_⟩
  rw [div_lt_one hpos]
  exact_mod_cast bits53_lt a b

theorem uniform_mem [IsStrictOrderedRing K] (low high : K) :
    Ensures (uniform low high) fun r => low ≤ r ∧ r < high := by
  rw [uniform]
  split_ifs with h
  · exact ensures_throw _
  · refine unitInterval_mem.bind fun u hu => ensures_pure ?_
    have hpos : 0 < high - low := sub_pos.mpr (not_le.mp h)
    have hmul := mul_lt_mul_of_pos_left hu.2 hpos
    rw [mul_one] at hmul
    exact ⟨le_add_of_nonneg_right (mul_nonneg hpos.le hu.1), by linarith⟩

end Determined.Nprand
