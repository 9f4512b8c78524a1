import Mathlib

/-! Greedy placement of items, one after the other.

    `place s x` is the state after `x` is placed, if it can be placed in `s`. A greedy walk over a
    list places what it can and passes over the rest. A walk over *levels* goes on to the next level
    only if it placed the whole level before: an item of a level is placed exactly when all items
    of the levels before it are and when it can be placed in the state that those leave. -/

namespace Determined.Schemes

variable {σ α : Type*} (place : σ → α → Option σ)

/-- The state a walk ends in. -/
def greedy (s : σ) : List α → σ
  | [] => s
  | x :: xs => greedy ((place s x).getD s) xs

/-- The items a walk places. -/
def placed (s : σ) : List α → List α
  | [] => []
  | x :: xs => if (place s x).isSome then x :: placed ((place s x).getD s) xs else placed s xs

/-- The items a walk passes over. -/
def passed (s : σ) : List α → List α
  | [] => []
  | x :: xs => if (place s x).isSome then passed ((place s x).getD s) xs else x :: passed s xs

/-- The items placed level by level, up to the first level that is not placed as a whole. -/
def placedByLevel (s : σ) : List (List α) → List α
  | [] => []
  | l :: ls =>
    placed place s l ++ if passed place s l = [] then placedByLevel (greedy place s l) ls else []

variable {place} {s : σ} {x : α}

theorem greedy_append (xs ys : List α) :
    greedy place s (xs ++ ys) = greedy place (greedy place s xs) ys := by
  induction xs generalizing s with
  | nil => rfl
  | cons x xs ih => exact ih

theorem placed_append (xs ys : List α) :
    placed place s (xs ++ ys) = placed place s xs ++ placed place (greedy place s xs) ys := by
  induction xs generalizing s with
  | nil => rfl
  | cons x xs ih =>
    simp only [List.cons_append, placed, greedy]
    cases h : place s x with
    | none => exact ih
    | some t => exact congrArg (x :: ·) ih

theorem passed_append (xs ys : List α) :
    passed place s (xs ++ ys) = passed place s xs ++ passed place (greedy place s xs) ys := by
  induction xs generalizing s with
  | nil => rfl
  | cons x xs ih =>
    simp only [List.cons_append, passed, greedy]
    cases h : place s x with
    | none => exact congrArg (x :: ·) ih
    | some t => exact ih

/-! ### Along a walk -/

/-- A property of every item of a walk and the state it comes to. -/
def Along (place : σ → α → Option σ) (P : σ → α → Prop) (s : σ) : List α → Prop
  | [] => True
  | x :: xs => P s x ∧ Along place P ((place s x).getD s) xs

theorem along_append {P : σ → α → Prop} (xs ys : List α) : Along place P s (xs ++ ys) ↔
    Along place P s xs ∧ Along place P (greedy place s xs) ys := by
  induction xs generalizing s with
  | nil => simp [Along, greedy]
  | cons x xs ih => simp only [List.cons_append, Along, greedy, ih, and_assoc]

theorem Along.mono {P Q : σ → α → Prop} {xs : List α} (h : Along place P s xs)
    (hPQ : ∀ s, ∀ x ∈ xs, P s x → Q s x) : Along place Q s xs := by
  induction xs generalizing s with
  | nil => trivial
  | cons x xs ih =>
    exact ⟨hPQ s x (List.mem_cons_self ..) h.1,
      ih h.2 fun s y hy => hPQ s y (List.mem_cons_of_mem _ hy)⟩

/-- An item stands in the state that the items before it leave. -/
theorem Along.at {P : σ → α → Prop} {before after : List α}
    (h : Along place P s (before ++ x :: after)) : P (greedy place s before) x :=
  ((along_append before (x :: after)).mp h).2.1

/-- Each item is placed or passed over. -/
theorem placed_append_passed_perm (xs : List α) :
    (placed place s xs ++ passed place s xs).Perm xs := by
  induction xs generalizing s with
  | nil => exact .nil
  | cons x xs ih =>
    simp only [placed, passed]
    cases h : place s x with
    | none => exact List.perm_middle.trans (ih.cons x)
    | some t => exact ih.cons x

theorem disjoint_placed_passed {xs : List α} (h : xs.Nodup) :
    (placed place s xs).Disjoint (passed place s xs) :=
  List.disjoint_of_nodup_append ((placed_append_passed_perm xs).nodup_iff.mpr h)

theorem placed_sublist (xs : List α) : (placed place s xs).Sublist xs := by
  induction xs generalizing s with
  | nil => exact .slnil
  | cons x xs ih =>
    simp only [placed]
    split
    · exact ih.cons_cons x
    · exact ih.cons x

theorem passed_sublist (xs : List α) : (passed place s xs).Sublist xs := by
  induction xs generalizing s with
  | nil => exact .slnil
  | cons x xs ih =>
    simp only [passed]
    split
    · exact ih.cons x
    · exact ih.cons_cons x

/-- Where nothing is passed over, everything is placed. -/
theorem placed_eq_self {xs : List α} (h : passed place s xs = []) : placed place s xs = xs := by
  have hperm : (placed place s xs ++ passed place s xs).Perm xs := placed_append_passed_perm xs
  rw [h, List.append_nil] at hperm
  exact (placed_sublist xs).eq_of_length hperm.length_eq

/-- An item is placed iff it can be placed in the state the items before it leave. -/
theorem mem_placed_iff {before after : List α} (hnodup : (before ++ x :: after).Nodup) :
    x ∈ placed place s (before ++ x :: after) ↔ (place (greedy place s before) x).isSome := by
  have hx := List.nodup_middle.mp hnodup
  have hbefore : x ∉ placed place s before := fun h =>
    (List.nodup_cons.mp hx).1 (List.mem_append_left _ ((placed_sublist before).subset h))
  have hafter : ∀ t, x ∉ placed place t after := fun t h =>
    (List.nodup_cons.mp hx).1 (List.mem_append_right _ ((placed_sublist after).subset h))
  rw [placed_append, List.mem_append, placed]
  split
  · simp_all
  · simp_all

theorem placedByLevel_subset (ls : List (List α)) :
    ∀ y ∈ placedByLevel place s ls, y ∈ ls.flatten := by
  induction ls generalizing s with
  | nil => simp [placedByLevel]
  | cons l ls ih =>
    intro y hy
    rw [placedByLevel] at hy
    rw [List.flatten_cons]
    rcases List.mem_append.mp hy with hy | hy
    · exact List.mem_append_left _ ((placed_sublist l).subset hy)
    · split at hy
      · exact List.mem_append_right _ (ih y hy)
      · cases hy

theorem placed_eq_nil (h : ∀ x, place s x = none) (xs : List α) :
    placed place s xs = [] ∧ greedy place s xs = s := by
  induction xs with
  | nil => exact ⟨rfl, rfl⟩
  | cons x xs ih => simpa [placed, greedy, h x] using ih

/-- Where nothing can be placed, nothing is. -/
theorem placedByLevel_eq_nil (h : ∀ x, place s x = none) (ls : List (List α)) :
    placedByLevel place s ls = [] := by
  induction ls with
  | nil => rfl
  | cons l ls ih =>
    obtain ⟨hplaced, hgreedy⟩ := placed_eq_nil h l
    rw [placedByLevel, hplaced, hgreedy, ih]
    split <;> rfl

/-- Level by level, an item is placed iff all the items of the levels before are and it can be
    placed in the state that the items before it leave. -/
theorem mem_placedByLevel_iff {levels after : List (List α)} {xs ys : List α}
    (hnodup : (levels ++ (xs ++ x :: ys) :: after).flatten.Nodup) :
    x ∈ placedByLevel place s (levels ++ (xs ++ x :: ys) :: after) ↔
      (∀ y ∈ levels.flatten, y ∈ placedByLevel place s (levels ++ (xs ++ x :: ys) :: after)) ∧
        (place (greedy place s (levels.flatten ++ xs)) x).isSome := by
  induction levels generalizing s with
  | nil =>
    rw [List.nil_append, List.flatten_cons] at hnodup
    have hafter : ∀ t, x ∉ placedByLevel place t after := fun t h =>
      List.disjoint_of_nodup_append hnodup (by simp) (placedByLevel_subset after x h)
    have hiff : x ∈ placed place s (xs ++ x :: ys) ↔ (place (greedy place s xs) x).isSome :=
      mem_placed_iff (List.nodup_append.mp hnodup).1
    simp only [List.nil_append, List.flatten_nil, List.not_mem_nil, false_imp_iff, implies_true,
      true_and, placedByLevel, List.mem_append (a := x) (s := placed place s _), hiff]
    refine or_iff_left fun h => ?_
    split at h
    · exact hafter _ h
    · cases h
  | cons l levels ih =>
    rw [List.cons_append, List.flatten_cons] at hnodup
    have hnodup' := (List.nodup_append.mp hnodup).2.1
    have hdisjoint := List.disjoint_of_nodup_append hnodup
    have hx : x ∉ l := fun h => hdisjoint h (by simp)
    simp only [List.cons_append, List.flatten_cons, placedByLevel, List.append_assoc,
      greedy_append (s := s) l]
    by_cases hpassed : passed place s l = []
    · -- The level is placed as a whole, and the walk goes on.
      rw [if_pos hpassed, placed_eq_self hpassed, List.mem_append, or_iff_right hx,
        ih hnodup', List.forall_mem_append]
      refine and_congr_left fun _ => ⟨fun h => ⟨fun y hy => List.mem_append_left _ hy,
        fun y hy => List.mem_append_right _ (h y hy)⟩, fun h y hy => ?_⟩
      refine (List.mem_append.mp (h.2 y hy)).resolve_left fun hl => hdisjoint hl ?_
      exact List.mem_flatten.mpr (by
        obtain ⟨l', hl', hy'⟩ := List.mem_flatten.mp hy
        exact ⟨l', List.mem_append_left _ hl', hy'⟩)
    · -- An item that the level passed over is not placed, and neither is anything after it.
      rw [if_neg hpassed, List.append_nil]
      obtain ⟨y, hy⟩ := List.exists_mem_of_ne_nil _ hpassed
      have hnodupl := (List.nodup_append.mp hnodup).1
      have hy' : y ∉ placed place s l := fun h => disjoint_placed_passed hnodupl h hy
      refine iff_of_false (fun h => hx ((placed_sublist l).subset h)) fun h => hy' ?_
      exact h.1 y (List.mem_append_left _ ((passed_sublist l).subset hy))

/-- An item of the levels taken together stands in one of them. -/
theorem exists_level {ls : List (List α)} {before after : List α}
    (h : ls.flatten = before ++ x :: after) : ∃ levels xs ys rest,
      ls = levels ++ (xs ++ x :: ys) :: rest ∧ before = levels.flatten ++ xs := by
  induction ls generalizing before with
  | nil => simp at h
  | cons l ls ih =>
    rw [List.flatten_cons] at h
    rcases List.append_eq_append_iff.mp h with ⟨before', rfl, hrest⟩ | ⟨ys, rfl, hrest⟩
    · obtain ⟨levels, xs, ys, rest, rfl, rfl⟩ := ih hrest
      exact ⟨l :: levels, xs, ys, rest, rfl, by simp⟩
    · cases ys with
      | nil =>
        obtain ⟨levels, xs, ys, rest, rfl, hnil⟩ := @ih [] hrest.symm
        refine ⟨(before ++ []) :: levels, xs, ys, rest, rfl, ?_⟩
        rw [List.flatten_cons, List.append_assoc, ← hnil, List.append_nil, List.append_nil]
      | cons y ys =>
        obtain ⟨rfl, -⟩ := List.cons.inj hrest
        exact ⟨[], before, ys, ls, rfl, rfl⟩

end Determined.Schemes
