import Mathlib

/-! A ring of cells, as the list of its cells from the current one on.

    A value is put into the current cell, and the next cell becomes the current one. So the ring
    holds the last of the values put into it, the oldest of them in the first cell that is not
    empty (`RingBuffer.pushAll_eq`). -/

namespace Determined.Schemes

structure RingBuffer (α : Type*) where
  cells : List (Option α)

namespace RingBuffer

variable {α : Type*}

def new (n : ℕ) : RingBuffer α := ⟨List.replicate n none⟩

/-- Put a value into the current cell, and go on to the next one. -/
def push (r : RingBuffer α) (a : α) : RingBuffer α :=
  match r.cells with
  | [] => r
  | _ :: cells => ⟨cells ++ [some a]⟩

/-- The values in the ring, from the current cell on. -/
def values (r : RingBuffer α) : List α := r.cells.filterMap id

@[simp] theorem length_push (r : RingBuffer α) (a : α) :
    (r.push a).cells.length = r.cells.length := by
  simp only [push]
  split
  · rfl
  · next h => simp [h]

/-- A ring without cells takes nothing. -/
theorem push_of_pos {r : RingBuffer α} {n : ℕ} (h : r.cells.length = n) {a : α} :
    (if 0 < n then r.push a else r) = r.push a := by
  split
  · rfl
  · have hnil : r.cells = [] := List.length_eq_zero_iff.mp (by omega)
    simp only [push, hnil]

def pushAll (r : RingBuffer α) (l : List α) : RingBuffer α := l.foldl push r

@[simp] theorem length_pushAll (r : RingBuffer α) (l : List α) :
    (r.pushAll l).cells.length = r.cells.length := by
  induction l generalizing r with
  | nil => rfl
  | cons a l ih => exact (ih (r.push a)).trans (length_push r a)

/-- The ring after values were put into a new one: the cells still empty, and the last values. -/
theorem pushAll_eq (n : ℕ) (l : List α) :
    (new n).pushAll l
      = ⟨List.replicate (n - l.length) none ++ (l.drop (l.length - n)).map some⟩ := by
  induction l using List.reverseRecOn with
  | nil => simp [pushAll, new]
  | append_singleton l a ih =>
    rw [pushAll] at ih ⊢
    rw [List.foldl_append, ih, List.foldl_cons, List.foldl_nil, List.length_append,
      List.length_singleton]
    by_cases h : l.length < n
    · obtain ⟨k, hk⟩ : ∃ k, n - l.length = k + 1 := ⟨n - l.length - 1, by omega⟩
      rw [hk, List.replicate_succ, show l.length - n = 0 by omega,
        show n - (l.length + 1) = k by omega, show l.length + 1 - n = 0 by omega]
      simp [push]
    · rw [show n - l.length = 0 by omega, show n - (l.length + 1) = 0 by omega]
      by_cases hn : n = 0
      · simp [push, hn]
      · have hdrop : l.drop (l.length - n) =
            l[l.length - n] :: l.drop (l.length - n + 1) := by
          rw [List.drop_eq_getElem_cons]
        rw [hdrop, show l.length + 1 - n = l.length - n + 1 by omega,
          List.drop_append_of_le_length (by omega)]
        simp only [push, List.replicate_zero, List.nil_append, List.map_cons, List.map_append,
          List.map_nil]

/-- The last values put into a new ring are the values in it. -/
theorem values_pushAll (n : ℕ) (l : List α) :
    ((new n).pushAll l).values = l.drop (l.length - n) := by
  rw [pushAll_eq, values, List.filterMap_append, List.filterMap_replicate_of_none rfl,
    List.filterMap_map, List.nil_append]
  exact List.filterMap_some

/-- As many as were put into it, or as it has cells. -/
theorem length_values_pushAll (n : ℕ) (l : List α) :
    ((new n).pushAll l).values.length = min l.length n := by
  rw [values_pushAll, List.length_drop]
  omega

end RingBuffer

end Determined.Schemes
