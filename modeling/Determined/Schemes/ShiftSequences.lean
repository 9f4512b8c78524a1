import Mathlib

/-! Sequences and the polynomials in the shift that annihilate them.

    A linear recurrence says that some polynomial in the shift takes a sequence to zero. If the value
    of the polynomial at one is not zero, the sequence is not constantly one from any point on: the
    polynomial would take it to that value. Over the field of two elements the same holds of every
    second element, as squaring the polynomial spreads its coefficients
    (`annihilated_everySecond`). -/

namespace Determined.Schemes
open Polynomial

variable {R : Type*} [CommRing R]

/-- The sequence from its second element on. -/
def shift (R : Type*) [CommRing R] : Module.End R (ℕ → R) where
  toFun x n := x (n + 1)
  map_add' _ _ := rfl
  map_smul' _ _ := rfl

/-- What a polynomial in the shift makes of a sequence. -/
noncomputable def applied (p : R[X]) : Module.End R (ℕ → R) := aeval (shift R) p

theorem shift_pow_apply (k : ℕ) (x : ℕ → R) (n : ℕ) : (shift R ^ k) x n = x (n + k) := by
  induction k generalizing n with
  | zero => rfl
  | succ k ih =>
    rw [pow_succ', Module.End.mul_apply]
    change (shift R ^ k) x (n + 1) = _
    rw [ih]
    exact congrArg x (by omega)

theorem applied_X_pow (k : ℕ) (x : ℕ → R) (n : ℕ) : applied (X ^ k) x n = x (n + k) := by
  rw [applied, map_pow, aeval_X, shift_pow_apply]

theorem applied_X (x : ℕ → R) (n : ℕ) : applied X x n = x (n + 1) := by
  rw [← pow_one X, applied_X_pow]

theorem applied_mul (p q : R[X]) (x : ℕ → R) : applied (p * q) x = applied p (applied q x) := by
  rw [applied, map_mul, Module.End.mul_apply, applied, applied]

theorem applied_comm (p q : R[X]) (x : ℕ → R) : applied p (applied q x) = applied q (applied p x) := by
  rw [← applied_mul, mul_comm, applied_mul]

/-- The sequences that the polynomial annihilates. -/
noncomputable def annihilated (p : R[X]) : Submodule R (ℕ → R) := LinearMap.ker (applied p)

theorem mem_annihilated {p : R[X]} {x : ℕ → R} : x ∈ annihilated p ↔ applied p x = 0 :=
  LinearMap.mem_ker

theorem annihilated_mul (p q : R[X]) {x : ℕ → R} (h : applied p x ∈ annihilated q) :
    x ∈ annihilated (q * p) := by
  rw [mem_annihilated] at h ⊢
  rwa [applied_mul]

theorem annihilated_of_dvd {p q : R[X]} (hpq : p ∣ q) {x : ℕ → R} (h : x ∈ annihilated p) :
    x ∈ annihilated q := by
  obtain ⟨r, rfl⟩ := hpq
  rw [mem_annihilated] at h ⊢
  rw [mul_comm, applied_mul, h, map_zero]

theorem annihilated_applied {p : R[X]} (q : R[X]) {x : ℕ → R} (h : x ∈ annihilated p) :
    applied q x ∈ annihilated p := by
  rw [mem_annihilated] at h ⊢
  rw [applied_comm, h, map_zero]

/-! ### Constant sequences -/

theorem applied_one (p : R[X]) : applied p (1 : ℕ → R) = fun _ => p.eval 1 := by
  induction p using Polynomial.induction_on with
  | C a =>
    ext n
    simp [applied]
  | add p q hp hq =>
    rw [applied] at hp hq ⊢
    rw [map_add, LinearMap.add_apply, hp, hq, eval_add]
    rfl
  | monomial k a _ =>
    ext n
    rw [applied, map_mul, aeval_C, Module.End.mul_apply, ← applied, Module.algebraMap_end_apply,
      Pi.smul_apply, applied_X_pow]
    simp

/-- An annihilated sequence does not stay at one. -/
theorem exists_ne_one {p : R[X]} (hp : p.eval 1 ≠ 0) {x : ℕ → R} (h : x ∈ annihilated p) (start : ℕ) :
    ∃ n, start ≤ n ∧ x n ≠ 1 := by
  by_contra hnone
  push Not at hnone
  have hone : applied (X ^ start) x = 1 := by
    ext n
    rw [applied_X_pow, hnone _ (by omega), Pi.one_apply]
  have hzero := mem_annihilated.mp (annihilated_applied (X ^ start) h)
  rw [hone, applied_one] at hzero
  exact hp (congrFun hzero 0)

/-! ### Every second element -/

/-- Every second element of a sequence. -/
def everySecond (R : Type*) [CommRing R] : Module.End R (ℕ → R) where
  toFun x n := x (2 * n)
  map_add' _ _ := rfl
  map_smul' _ _ := rfl

/-- Every second element is shifted by shifting the sequence twice. -/
theorem everySecond_applied (p : R[X]) (x : ℕ → R) :
    everySecond R (applied (expand R 2 p) x) = applied p (everySecond R x) := by
  rw [applied, expand_aeval]
  induction p using Polynomial.induction_on with
  | C a =>
    rw [aeval_C, applied, aeval_C]
    rfl
  | add p q hp hq =>
    rw [applied] at hp hq ⊢
    rw [map_add, map_add, LinearMap.add_apply, LinearMap.add_apply, map_add, hp, hq]
  | monomial k a _ =>
    ext n
    rw [map_mul, map_pow, aeval_C, aeval_X, Module.End.mul_apply, Module.algebraMap_end_apply,
      applied, map_mul, aeval_C, Module.End.mul_apply, ← applied, Module.algebraMap_end_apply,
      Pi.smul_apply, applied_X_pow, ← pow_mul]
    change a • (shift R ^ (2 * (k + 1))) x (2 * n) = a • x (2 * (n + (k + 1)))
    rw [shift_pow_apply]
    exact congrArg (fun i => a • x i) (by omega)

/-- Over two elements, every second element of an annihilated sequence is annihilated as well. -/
theorem annihilated_everySecond {p : (ZMod 2)[X]} {x : ℕ → ZMod 2} (h : x ∈ annihilated p) :
    everySecond (ZMod 2) x ∈ annihilated p := by
  rw [mem_annihilated] at h ⊢
  rw [← everySecond_applied, ZMod.expand_card, sq, applied_mul, h, map_zero, map_zero]

/-! ### A chain of sequences -/

section Chain

variable {E : R[X]} {m : ℕ} {a : ℕ → R} {b : ℕ → ℕ → R} {z : ℕ → R}

/-- The polynomials that a chain of sequences multiplies its last one by. -/
noncomputable def chainPoly (E : R[X]) (a : ℕ → R) : ℕ → R[X]
  | 0 => 1
  | j + 1 => E * chainPoly E a j - C (a j) * X ^ (j + 1)

variable (hfirst : applied X (b 0) = applied E z)
  (hnext : ∀ j < m, applied E (b j) = applied X (b (j + 1)) + a j • applied X (b 0))
  (hlast : applied E (b m) = z + a m • applied X (b 0))

theorem applied_smul (p : R[X]) (c : R) (x : ℕ → R) : applied (C c * p) x = c • applied p x := by
  rw [applied_mul, applied, aeval_C, Module.algebraMap_end_apply]

/-- What follows from one link of the chain, once the sequence has been traced back to `z`. -/
theorem chain_link (hfirst : applied X (b 0) = applied E z) {j : ℕ} {y : ℕ → R}
    (h : applied (X ^ (j + 1)) (b j) = applied (E * chainPoly E a j) z)
    (hlink : applied E (b j) = y + a j • applied X (b 0)) :
    applied (X ^ (j + 1)) y = applied (E * chainPoly E a (j + 1)) z := by
  have hy : y = applied E (b j) - a j • applied E z := by
    rw [hlink, hfirst, add_sub_cancel_right]
  rw [hy, map_sub, applied_comm, h, map_smul, ← applied_mul, ← applied_mul, ← applied_smul,
    ← LinearMap.sub_apply, applied, applied, ← map_sub, chainPoly]
  congr 2
  ring

include hfirst hnext in
theorem chain_eq {j : ℕ} (hj : j ≤ m) :
    applied (X ^ (j + 1)) (b j) = applied (E * chainPoly E a j) z := by
  induction j with
  | zero => rw [zero_add, pow_one, hfirst, chainPoly, mul_one]
  | succ j ih =>
    have hlink := chain_link hfirst (ih (by omega)) (hnext j (by omega))
    rwa [← applied_mul, ← pow_succ] at hlink

include hfirst hnext hlast in
/-- Sequences of which each is, up to a multiple of the first, the next one shifted, and the last one
    is `z` itself: a polynomial that is one at one annihilates them all, if the recurrence `E` is zero
    at one. -/
theorem exists_annihilator (hE : E.eval 1 = 0) : ∃ p : R[X], p.eval 1 = 1 ∧ z ∈ annihilated p ∧
    ∀ j ≤ m, b j ∈ annihilated p := by
  have hz : z ∈ annihilated (X ^ (m + 1) - E * chainPoly E a (m + 1)) := by
    have hlink := chain_link hfirst (chain_eq hfirst hnext le_rfl) hlast
    rw [mem_annihilated, applied, map_sub, LinearMap.sub_apply, sub_eq_zero]
    exact hlink
  refine ⟨(X ^ (m + 1) - E * chainPoly E a (m + 1)) * X ^ (m + 1), ?_, ?_, fun j hj => ?_⟩
  · simp [hE]
  · exact annihilated_of_dvd (dvd_mul_right ..) hz
  · have hj' : applied (X ^ (j + 1)) (b j) ∈
        annihilated (X ^ (m + 1) - E * chainPoly E a (m + 1)) := by
      rw [chain_eq hfirst hnext hj]
      exact annihilated_applied _ hz
    refine annihilated_of_dvd (mul_dvd_mul_left _ ?_) (annihilated_mul _ _ hj')
    exact pow_dvd_pow X (by omega)

end Chain

end Determined.Schemes
