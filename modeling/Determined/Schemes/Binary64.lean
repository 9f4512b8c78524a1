import Mathlib

/-! The numbers of 64 bits with a floating point, as the rationals that they stand for.

    A number is rounded to a multiple of its last place, to an even one if it lies in the middle of
    two. Integers up to `2 ^ 53` are their own roundings. -/

namespace Determined.Schemes

/-- The nearest integer, the even one of two that are as near. -/
def roundHalfEven (q : ℚ) : ℤ :=
  if q - ⌊q⌋ < 1 / 2 then ⌊q⌋
  else if 1 / 2 < q - ⌊q⌋ then ⌊q⌋ + 1
  else if ⌊q⌋ % 2 = 0 then ⌊q⌋ else ⌊q⌋ + 1

/-- The exponent of the last place of the numbers around this one. -/
def lastPlace (q : ℚ) : ℤ := max (Int.log 2 |q|) (-1022) - 52

/-- The number that a decimal is read as; one that is too large is read as an infinity. -/
def binary64 (q : ℚ) : WithBot (WithTop ℚ) :=
  let rounded := roundHalfEven (q / 2 ^ lastPlace q) * (2 : ℚ) ^ lastPlace q
  if 2 ^ 1024 ≤ rounded then ⊤
  else if rounded ≤ -2 ^ 1024 then ⊥
  else ((rounded : WithTop ℚ) : WithBot (WithTop ℚ))

theorem roundHalfEven_intCast (z : ℤ) : roundHalfEven z = z := by
  rw [roundHalfEven, Int.floor_intCast, sub_self, if_pos (by norm_num)]

/-- What is a multiple of its last place is its own rounding. -/
theorem binary64_of_multiple {q : ℚ} {m : ℤ} (h : q = m * (2 : ℚ) ^ lastPlace q)
    (hlow : -2 ^ 1024 < q) (hhigh : q < 2 ^ 1024) :
    binary64 q = ((q : WithTop ℚ) : WithBot (WithTop ℚ)) := by
  have hdiv : q / 2 ^ lastPlace q = m := by
    rw [div_eq_iff (by positivity)]
    exact h
  have hround : (roundHalfEven (q / 2 ^ lastPlace q) : ℚ) * 2 ^ lastPlace q = q := by
    rw [hdiv, roundHalfEven_intCast, ← h]
  simp only [binary64, hround]
  rw [if_neg (not_le.mpr hhigh), if_neg (not_le.mpr hlow)]

theorem lastPlace_intCast_le {z : ℤ} (h : |z| < 2 ^ 53) : lastPlace (z : ℚ) ≤ 0 := by
  rw [lastPlace, sub_nonpos, max_le_iff]
  refine ⟨?_, by norm_num⟩
  rcases eq_or_ne z 0 with rfl | hz
  · simp
  have hpos : (0 : ℚ) < |(z : ℚ)| := by positivity
  by_contra hlog
  rw [not_le] at hlog
  have hle := Int.zpow_log_le_self (b := 2) (by norm_num) hpos
  have hpow : ((2 : ℕ) : ℚ) ^ (53 : ℤ) ≤ ((2 : ℕ) : ℚ) ^ Int.log 2 |(z : ℚ)| :=
    zpow_le_zpow_right₀ (by norm_num) (by omega)
  have hcast : |(z : ℚ)| < 2 ^ 53 := by exact_mod_cast h
  have := hpow.trans hle
  norm_num at this hcast
  linarith

/-- Integers below `2 ^ 53` are read as they are. -/
theorem binary64_intCast {z : ℤ} (h : |z| < 2 ^ 53) :
    binary64 (z : ℚ) = (((z : ℚ) : WithTop ℚ) : WithBot (WithTop ℚ)) := by
  obtain ⟨n, hn⟩ := Int.exists_eq_neg_ofNat (lastPlace_intCast_le h)
  have hz := abs_lt.mp h
  have hbig : (2 : ℚ) ^ 53 ≤ 2 ^ 1024 := pow_le_pow_right₀ (by norm_num) (by norm_num)
  have hlow : -2 ^ 53 < (z : ℚ) := by exact_mod_cast hz.1
  have hhigh : (z : ℚ) < 2 ^ 53 := by exact_mod_cast hz.2
  refine binary64_of_multiple (m := z * 2 ^ n) ?_ ((neg_le_neg hbig).trans_lt hlow)
    (hhigh.trans_le hbig)
  rw [hn, zpow_neg, zpow_natCast]
  push_cast
  rw [mul_assoc, mul_inv_cancel₀ (by positivity), mul_one]

end Determined.Schemes
