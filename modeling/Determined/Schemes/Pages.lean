import Mathlib

/-! Reading a list in pages.

    A reader keeps an offset. Each page it gets is a piece of the list from the offset on, and the
    offset moves by the length of the page. Whatever the pages are, they come to the part of the list
    between the first and the last offset (`Reads.flatten`); and a list may grow at its end in the
    meantime (`Reads.grow`). -/

namespace Determined.Schemes

variable {α : Type*} {l l' : List α} {i j k : ℕ} {pages pages' : List (List α)}

/-- The part of a list from one index up to another. -/
def between (l : List α) (i j : ℕ) : List α := (l.drop i).take (j - i)

theorem length_between (l : List α) (hj : j ≤ l.length) : (between l i j).length = j - i := by
  rw [between, List.length_take, List.length_drop]
  omega

@[simp] theorem between_self (l : List α) (i : ℕ) : between l i i = [] := by
  simp [between]

/-- Two parts that meet. -/
theorem between_append (l : List α) (hij : i ≤ j) (hjk : j ≤ k) :
    between l i j ++ between l j k = between l i k := by
  obtain ⟨a, rfl⟩ := Nat.exists_eq_add_of_le hij
  obtain ⟨b, rfl⟩ := Nat.exists_eq_add_of_le hjk
  rw [between, between, between, ← List.drop_drop, Nat.add_sub_cancel_left, Nat.add_sub_cancel_left,
    Nat.add_assoc, Nat.add_sub_cancel_left, List.take_add]

theorem between_length (l : List α) (i : ℕ) : between l i l.length = l.drop i := by
  rw [between, List.take_of_length_le (by simp)]

/-- A part of a list is a part of what the list grows to. -/
theorem between_grow (h : l <+: l') (hj : j ≤ l.length) : between l i j = between l' i j := by
  obtain ⟨rest, rfl⟩ := h
  by_cases hij : i ≤ j
  · rw [between, between, List.drop_append_of_le_length (hij.trans hj),
      List.take_append_of_le_length (by rw [List.length_drop]; omega)]
  · rw [between, between, Nat.sub_eq_zero_of_le (by omega), List.take_zero, List.take_zero]

/-- A part that reaches to the end. -/
theorem between_of_length_le (l : List α) (i : ℕ) (hj : l.length ≤ j) : between l i j = l.drop i := by
  rw [between, List.take_of_length_le (by rw [List.length_drop]; omega)]

/-- A part is as long as it says, or is cut at the end. -/
theorem between_add_length (l : List α) (i j : ℕ) :
    between l i j = between l i (i + (between l i j).length) := by
  simp only [between, Nat.add_sub_cancel_left, List.take_eq_take_iff, List.length_take]
  omega

theorem getElem?_between (l : List α) (i j n : ℕ) :
    (between l i j)[n]? = if i + n < j then l[i + n]? else none := by
  rw [between, List.getElem?_take, List.getElem?_drop]
  exact ite_congr (by simp only [eq_iff_iff]; omega) (fun _ => rfl) (fun _ => rfl)

theorem between_drop (l : List α) (n i j : ℕ) : between (l.drop n) i j = between l (n + i) (n + j) := by
  rw [between, between, List.drop_drop, Nat.add_sub_add_left]

theorem take_between (l : List α) (i j n : ℕ) :
    (between l i j).take n = between l i (min j (i + n)) := by
  rw [between, between, List.take_take]
  congr 1
  omega

theorem drop_between (l : List α) (i j n : ℕ) :
    (between l i j).drop n = between l (i + n) j := by
  rw [between, between, List.drop_take, List.drop_drop]
  congr 1
  omega

theorem between_eq_nil (l : List α) (h : j ≤ i) : between l i j = [] := by
  rw [between, Nat.sub_eq_zero_of_le h, List.take_zero]

/-- The elements whose indices lie in a range are a part of the list. -/
theorem filter_eq_between {p : α → Bool} {low high : ℕ}
    (h : ∀ i a, l[i]? = some a → (p a = true ↔ low ≤ i ∧ i < high)) :
    l.filter p = between l low high := by
  induction l generalizing low high with
  | nil => simp [between]
  | cons a l ih =>
    have hfirst := h 0 a rfl
    have hrest := @ih (low - 1) (high - 1) fun i b hb => by
      rw [h (i + 1) b hb]
      omega
    cases low with
    | zero =>
      cases high with
      | zero =>
        rw [List.filter_cons_of_neg (by rw [hfirst]; omega), hrest]
        rfl
      | succ high =>
        rw [List.filter_cons_of_pos (by rw [hfirst]; omega), hrest]
        rfl
    | succ low =>
      rw [List.filter_cons_of_neg (by rw [hfirst]; omega), hrest]
      simp only [between, List.drop_succ_cons, Nat.add_sub_cancel]
      congr 1
      omega

/-- Pages read from one offset to another. -/
inductive Reads (l : List α) : ℕ → List (List α) → ℕ → Prop
  | nil (i : ℕ) : Reads l i [] i
  | cons {i j k : ℕ} {pages : List (List α)} :
      i ≤ j → j ≤ l.length → Reads l j pages k → Reads l i (between l i j :: pages) k

/-- The pages come to what lies between the offsets. -/
theorem Reads.flatten (h : Reads l i pages k) : i ≤ k ∧ pages.flatten = between l i k := by
  induction h with
  | nil i => simp
  | cons hij _ _ ih =>
    refine ⟨hij.trans ih.1, ?_⟩
    rw [List.flatten_cons, ih.2, between_append l hij ih.1]

/-- The list may grow between the pages. -/
theorem Reads.grow (h : Reads l i pages k) (hl : l <+: l') : Reads l' i pages k := by
  induction h with
  | nil i => exact .nil i
  | cons hij hj _ ih =>
    rw [between_grow hl hj]
    exact .cons hij (hj.trans hl.length_le) ih

theorem Reads.append (h : Reads l i pages j) (h' : Reads l j pages' k) :
    Reads l i (pages ++ pages') k := by
  induction h with
  | nil i => exact h'
  | cons hij hj _ ih => exact .cons hij hj (ih h')

end Determined.Schemes
