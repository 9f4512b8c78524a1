import Mathlib

/-! Sets kept in the order of a comparator.

    What is kept is read off the iteration alone: elements that compare equal stand for one, and the
    one added last stays. Sorted lists are such a set for every comparator that compares by a key of
    a linear order. -/

namespace Determined.Schemes

variable {α S κ : Type*}

/-- A set of values of `S` that holds elements of `α`. -/
structure TreeSet (α S : Type*) where
  empty : S
  add : S → α → S
  remove : S → α → S
  values : S → List α

namespace TreeSet

/-- The set iterates in the order of the comparator, and tells elements apart by it. -/
structure OrderedBy (t : TreeSet α S) (cmp : α → α → Ordering) : Prop where
  values_empty : t.values t.empty = []
  mem_add : ∀ s x y, y ∈ t.values (t.add s x) ↔ y = x ∨ y ∈ t.values s ∧ cmp y x ≠ .eq
  mem_remove : ∀ s x y, y ∈ t.values (t.remove s x) ↔ y ∈ t.values s ∧ cmp y x ≠ .eq
  sorted : ∀ s, (t.values s).Pairwise fun a b => cmp a b = .lt

theorem OrderedBy.nodup {t : TreeSet α S} {cmp : α → α → Ordering} (h : t.OrderedBy cmp)
    (hcmp : ∀ a, cmp a a = .eq) (s : S) : (t.values s).Nodup := by
  refine (h.sorted s).imp ?_
  rintro a _ hlt rfl
  rw [hcmp a] at hlt
  cases hlt

/-! ### Sorted lists -/

/-- Insert into a sorted list; an element that compares equal is replaced. -/
def insertSorted (cmp : α → α → Ordering) (x : α) : List α → List α
  | [] => [x]
  | y :: ys =>
    match cmp y x with
    | .lt => y :: insertSorted cmp x ys
    | .eq => x :: ys
    | .gt => x :: y :: ys

variable [LinearOrder κ] {key : α → κ} {cmp : α → α → Ordering} {x : α}
  (hcmp : ∀ a b, cmp a b = compare (key a) (key b))
include hcmp

theorem mem_insertSorted {ys : List α} (h : ys.Pairwise fun a b => cmp a b = .lt) {z : α} :
    z ∈ insertSorted cmp x ys ↔ z = x ∨ z ∈ ys ∧ cmp z x ≠ .eq := by
  simp only [hcmp, compare_lt_iff_lt] at h
  induction ys with
  | nil => simp [insertSorted]
  | cons y ys ih =>
    obtain ⟨hhead, htail⟩ := List.pairwise_cons.mp h
    simp only [hcmp, ne_eq, compare_eq_iff_eq] at ih ⊢
    rw [insertSorted, hcmp]
    cases hc : compare (key y) (key x) with
    | lt =>
      have hlt := compare_lt_iff_lt.mp hc
      simp only [List.mem_cons, ih htail]
      constructor
      · rintro (rfl | rfl | ⟨hz, hne⟩)
        · exact .inr ⟨.inl rfl, hlt.ne⟩
        · exact .inl rfl
        · exact .inr ⟨.inr hz, hne⟩
      · rintro (rfl | ⟨rfl | hz, hne⟩)
        · exact .inr (.inl rfl)
        · exact .inl rfl
        · exact .inr (.inr ⟨hz, hne⟩)
    | eq =>
      have heq := compare_eq_iff_eq.mp hc
      simp only [List.mem_cons]
      constructor
      · rintro (rfl | hz)
        · exact .inl rfl
        · exact .inr ⟨.inr hz, (heq ▸ hhead z hz).ne'⟩
      · rintro (rfl | ⟨rfl | hz, hne⟩)
        · exact .inl rfl
        · exact absurd heq hne
        · exact .inr hz
    | gt =>
      have hgt := compare_gt_iff_gt.mp hc
      simp only [List.mem_cons]
      constructor
      · rintro (rfl | rfl | hz)
        · exact .inl rfl
        · exact .inr ⟨.inl rfl, hgt.ne'⟩
        · exact .inr ⟨.inr hz, (hgt.trans (hhead z hz)).ne'⟩
      · rintro (rfl | ⟨hz, -⟩)
        · exact .inl rfl
        · exact .inr hz

theorem pairwise_insertSorted {ys : List α} (h : ys.Pairwise fun a b => cmp a b = .lt) :
    (insertSorted cmp x ys).Pairwise fun a b => cmp a b = .lt := by
  induction ys with
  | nil => exact List.pairwise_singleton _ _
  | cons y ys ih =>
    obtain ⟨hhead, htail⟩ := List.pairwise_cons.mp h
    rw [insertSorted]
    cases hc : cmp y x with
    | lt =>
      refine List.pairwise_cons.mpr ⟨fun z hz => ?_, ih htail⟩
      rcases (mem_insertSorted hcmp htail).mp hz with rfl | ⟨hz, -⟩
      · exact hc
      · exact hhead z hz
    | eq =>
      refine List.pairwise_cons.mpr ⟨fun z hz => ?_, htail⟩
      have hz := hhead z hz
      rw [hcmp, compare_eq_iff_eq] at hc
      rwa [hcmp, ← hc, ← hcmp]
    | gt =>
      refine List.pairwise_cons.mpr ⟨fun z hz => ?_, h⟩
      simp only [hcmp, compare_gt_iff_gt, compare_lt_iff_lt] at hc hhead ⊢
      rcases List.mem_cons.mp hz with rfl | hz
      · exact hc
      · exact hc.trans (hhead z hz)

/-- Lists sorted by the comparator are told apart by their elements. -/
theorem eq_of_mem_iff {xs ys : List α} (hx : xs.Pairwise fun a b => cmp a b = .lt)
    (hy : ys.Pairwise fun a b => cmp a b = .lt) (h : ∀ a, a ∈ xs ↔ a ∈ ys) : xs = ys := by
  have : Std.Irrefl fun a b : α => cmp a b = .lt :=
    ⟨fun a ha => lt_irrefl _ (compare_lt_iff_lt.mp (hcmp a a ▸ ha))⟩
  have : Std.Antisymm fun a b : α => cmp a b = .lt := by
    refine ⟨fun a b hab hba => ?_⟩
    rw [hcmp, compare_lt_iff_lt] at hab hba
    exact absurd hba hab.asymm
  exact hx.eq_of_mem_iff hy h

/-- What is iterated over after an addition is settled by the laws, whatever the set is made of. -/
theorem OrderedBy.values_add {t : TreeSet α S} (h : t.OrderedBy cmp) (s : S) (x : α) :
    t.values (t.add s x) = insertSorted cmp x (t.values s) := by
  refine eq_of_mem_iff hcmp (h.sorted _) (pairwise_insertSorted hcmp (h.sorted s)) fun a => ?_
  rw [h.mem_add, mem_insertSorted hcmp (h.sorted s)]

theorem OrderedBy.values_remove {t : TreeSet α S} (h : t.OrderedBy cmp) (s : S) (x : α) :
    t.values (t.remove s x) = (t.values s).filter (cmp · x != .eq) := by
  refine eq_of_mem_iff hcmp (h.sorted _) ((h.sorted s).sublist List.filter_sublist) fun a => ?_
  rw [h.mem_remove, List.mem_filter, bne_iff_ne]

omit hcmp in
/-- Lists sorted by the comparator, as a set. -/
def sortedLists (hcmp : ∀ a b, cmp a b = compare (key a) (key b)) :
    TreeSet α {ys : List α // ys.Pairwise fun a b => cmp a b = .lt} where
  empty := ⟨[], .nil⟩
  add s x := ⟨insertSorted cmp x s.1, pairwise_insertSorted hcmp s.2⟩
  remove s x := ⟨s.1.filter (cmp · x != .eq), s.2.sublist List.filter_sublist⟩
  values s := s.1

theorem orderedBy_sortedLists : (sortedLists hcmp).OrderedBy cmp where
  values_empty := rfl
  mem_add s _ _ := mem_insertSorted hcmp s.2
  mem_remove s x y := by
    rw [sortedLists, List.mem_filter, bne_iff_ne]
  sorted s := s.2

end TreeSet

end Determined.Schemes
