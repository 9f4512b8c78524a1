import Mathlib

/-! Arenas: records that are allocated one after the other and addressed by their number.

    A reference is the number of its record, so that records can point at each other in any shape,
    and a record that is allocated later has a larger number. -/

namespace Determined.Schemes

/-- `size` records have been allocated; `get` gives each of them. -/
structure Arena (α : Type*) where
  size : ℕ
  get : ℕ → α

namespace Arena

variable {α : Type*} (t : Arena α) {i j : ℕ} (x : α) (f : α → α)

/-- Allocate one more record. -/
def add : Arena α := ⟨t.size + 1, Function.update t.get t.size x⟩

/-- Change record `i`. -/
def modify (i : ℕ) : Arena α := { t with get := Function.update t.get i (f (t.get i)) }

@[simp] theorem size_add : (t.add x).size = t.size + 1 := rfl

@[simp] theorem size_modify : (t.modify f i).size = t.size := rfl

@[simp] theorem get_add_self : (t.add x).get t.size = x := by
  simp [add]

theorem get_add_of_ne (h : i ≠ t.size) : (t.add x).get i = t.get i := by
  simp [add, h]

theorem get_add_of_lt (h : i < t.size) : (t.add x).get i = t.get i :=
  t.get_add_of_ne x h.ne

@[simp] theorem get_modify_self : (t.modify f i).get i = f (t.get i) := by
  simp [modify]

theorem get_modify_of_ne (h : j ≠ i) : (t.modify f i).get j = t.get j := by
  simp [modify, h]

theorem get_modify : (t.modify f i).get j = if j = i then f (t.get j) else t.get j := by
  by_cases h : j = i
  · subst h
    simp
  · simp [get_modify_of_ne, h]

theorem get_add : (t.add x).get i = if i = t.size then x else t.get i := by
  by_cases h : i = t.size
  · subst h
    simp
  · simp [get_add_of_ne, h]

/-- What a change leaves alone, it leaves alone everywhere. -/
theorem get_modify_congr {β : Type*} (p : α → β) (h : p (f (t.get i)) = p (t.get i)) :
    p ((t.modify f i).get j) = p (t.get j) := by
  by_cases hj : j = i
  · subst hj
    simpa using h
  · rw [get_modify_of_ne t f hj]

/-- Something counted over all records. -/
def total (p : α → ℕ) : ℕ := ∑ i ∈ Finset.range t.size, p (t.get i)

theorem total_add (p : α → ℕ) : (t.add x).total p = t.total p + p x := by
  unfold total
  rw [size_add, Finset.sum_range_succ, get_add_self]
  refine congrArg (· + p x) (Finset.sum_congr rfl fun i hi => ?_)
  rw [get_add_of_lt t x (Finset.mem_range.mp hi)]

/-- One record changes. -/
theorem total_update {t t' : Arena α} (p : α → ℕ) (hsize : t'.size = t.size)
    (h : ∀ j, j ≠ i → p (t'.get j) = p (t.get j)) (hi : i < t.size) :
    t'.total p + p (t.get i) = t.total p + p (t'.get i) := by
  have hmem : i ∈ Finset.range t.size := Finset.mem_range.mpr hi
  unfold total
  rw [hsize, ← Finset.add_sum_erase _ _ hmem, ← Finset.add_sum_erase _ _ hmem,
    Finset.sum_congr rfl fun j hj => h j (Finset.ne_of_mem_erase hj)]
  omega

theorem total_modify_le (p : α → ℕ) {k : ℕ} (h : p (f (t.get i)) ≤ p (t.get i) + k) :
    (t.modify f i).total p ≤ t.total p + k := by
  by_cases hi : i < t.size
  · have hsum := total_update (i := i) (t := t) p (t.size_modify f)
      (fun j hj => by rw [get_modify_of_ne t f hj]) hi
    rw [get_modify_self] at hsum
    omega
  · refine le_of_eq_of_le ?_ (Nat.le_add_right _ k)
    unfold total
    refine Finset.sum_congr rfl fun j hj => ?_
    have hne : j ≠ i := by
      rintro rfl
      exact hi (Finset.mem_range.mp hj)
    rw [get_modify_of_ne t f hne]

/-- What no record's change touches, the total does not see. -/
theorem total_congr {t t' : Arena α} (p : α → ℕ) (hsize : t'.size = t.size)
    (h : ∀ i, p (t'.get i) = p (t.get i)) : t'.total p = t.total p := by
  unfold total
  rw [hsize]
  exact Finset.sum_congr rfl fun i _ => h i

theorem exists_of_total_pos {p : α → ℕ} (h : 0 < t.total p) : ∃ i < t.size, 0 < p (t.get i) := by
  obtain ⟨i, hi, hpos⟩ := Finset.exists_ne_zero_of_sum_ne_zero h.ne'
  exact ⟨i, Finset.mem_range.mp hi, Nat.pos_of_ne_zero hpos⟩

end Arena

end Determined.Schemes
