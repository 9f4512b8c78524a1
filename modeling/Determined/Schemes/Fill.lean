import Mathlib

/-! Filling a set up to a size: candidates are added one after the other as long as there is room.

    How many members the set has in the end depends on the candidates only through how many they
    are, and the set changes only if there was room to begin with. -/

namespace Determined.Schemes

variable {α : Type*} [DecidableEq α]

/-- Add the candidates in order until the set has `room` members. -/
def fill (room : ℕ) : List α → Finset α → Finset α
  | [], s => s
  | a :: as, s => if s.card < room then fill room as (insert a s) else s

variable {room : ℕ} {as bs : List α} {s : Finset α}

theorem fill_of_le (h : room ≤ s.card) : fill room as s = s := by
  cases as with
  | nil => rfl
  | cons a as => rw [fill, if_neg h.not_gt]

/-- Filling from two lists in turn is filling from both. -/
theorem fill_append : fill room (as ++ bs) s = fill room bs (fill room as s) := by
  induction as generalizing s with
  | nil => rfl
  | cons a as ih =>
    rw [List.cons_append, fill, fill]
    split
    · exact ih
    · rename_i h
      rw [fill_of_le (not_lt.mp h)]

theorem subset_fill : s ⊆ fill room as s := by
  induction as generalizing s with
  | nil => exact subset_rfl
  | cons a as ih =>
    rw [fill]
    split
    · exact (Finset.subset_insert a s).trans ih
    · exact subset_rfl

theorem fill_subset : fill room as s ⊆ s ∪ as.toFinset := by
  induction as generalizing s with
  | nil => simp [fill]
  | cons a as ih =>
    rw [fill]
    split
    · refine ih.trans ?_
      rw [List.toFinset_cons, Finset.insert_union, Finset.union_insert]
    · exact Finset.subset_union_left

/-- Either every candidate is in, or the room is taken. -/
theorem subset_fill_or_le : as.toFinset ⊆ fill room as s ∨ room ≤ (fill room as s).card := by
  induction as generalizing s with
  | nil => exact .inl (by simp)
  | cons a as ih =>
    rw [fill]
    split
    · refine ih.imp_left fun h => ?_
      rw [List.toFinset_cons, Finset.insert_subset_iff]
      exact ⟨subset_fill (Finset.mem_insert_self a s), h⟩
    · rename_i h
      exact .inr (not_lt.mp h)

/-- A set that changes is not filled over the room. -/
theorem card_fill_le : (fill room as s).card ≤ max s.card room := by
  induction as generalizing s with
  | nil => exact le_max_left _ _
  | cons a as ih =>
    rw [fill]
    split
    · rename_i h
      have hcard := Finset.card_insert_le a s
      have := ih (s := insert a s)
      omega
    · exact le_max_left _ _

/-- The size of the set that is filled. -/
theorem card_fill : (fill room as s).card = max s.card (min room (s ∪ as.toFinset).card) := by
  have hle : (fill room as s).card ≤ max s.card room := card_fill_le
  have hsub : s.card ≤ (fill room as s).card := Finset.card_le_card subset_fill
  have hunion : (fill room as s).card ≤ (s ∪ as.toFinset).card := Finset.card_le_card fill_subset
  have hstop : as.toFinset ⊆ fill room as s ∨ room ≤ (fill room as s).card := subset_fill_or_le
  rcases hstop with hall | hroom
  · have := Finset.card_le_card (Finset.union_subset subset_fill hall)
    rcases Nat.lt_or_ge s.card room with h | h
    · omega
    · rw [fill_of_le h] at this ⊢
      omega
  · rcases Nat.lt_or_ge s.card room with h | h
    · omega
    · rw [fill_of_le h]
      omega

end Determined.Schemes
