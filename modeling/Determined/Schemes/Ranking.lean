import Mathlib

/-! Lists in the order of a strict relation: the place of a member is the number of members that are
    ahead of it, and inserting a member where it belongs keeps the order.

    Where the members are ordered by a key, the rank of one is a matter of counting, as in SQL, and
    those of the first ranks are the first of the sorted list. -/

namespace Determined.Schemes

variable {α : Type*} {R : α → α → Prop} {l : List α} {i : ℕ} {a : α}

/-- Inserted behind what comes before it and ahead of what comes after it, a member is in order. -/
theorem pairwise_insertIdx (h : l.Pairwise R) (hi : i ≤ l.length) (hbefore : ∀ x ∈ l.take i, R x a)
    (hafter : ∀ x ∈ l.drop i, R a x) : (l.insertIdx i a).Pairwise R := by
  have hsplit : l.insertIdx i a = l.take i ++ a :: l.drop i :=
    List.ext_getElem (by grind) (by grind)
  rw [← List.take_append_drop i l, List.pairwise_append] at h
  obtain ⟨htake, hdrop, hcross⟩ := h
  rw [hsplit, List.pairwise_append]
  refine ⟨htake, List.pairwise_cons.mpr ⟨hafter, hdrop⟩, fun x hx y hy => ?_⟩
  rcases List.mem_cons.mp hy with rfl | hy
  · exact hbefore x hx
  · exact hcross x hx y hy

/-- The members ahead of the one at place `i` are the `i` members before it. -/
theorem countP_ahead [DecidableRel R] (hirrefl : ∀ x, ¬R x x) (hasymm : ∀ x y, R x y → ¬R y x)
    (h : l.Pairwise R) (hi : i < l.length) : l.countP (fun x => decide (R x l[i])) = i := by
  induction l generalizing i with
  | nil => simp at hi
  | cons x l ih =>
    obtain ⟨hhead, htail⟩ := List.pairwise_cons.mp h
    cases i with
    | zero =>
      rw [List.countP_eq_zero]
      intro y hy
      rcases List.mem_cons.mp hy with rfl | hy
      · simpa using hirrefl y
      · simpa using hasymm x y (hhead y hy)
    | succ i =>
      have hi' : i < l.length := by simpa using hi
      rw [List.countP_cons, List.getElem_cons_succ, ih htail hi',
        if_pos (by simpa using hhead _ (List.getElem_mem hi'))]

/-! ### Ranks by a key -/

section
variable {κ : Type*} [LinearOrder κ] (key : α → κ)

/-- The rank of a member: one more than the members with a smaller key. -/
def rankOn (l : List α) (a : α) : ℕ := l.countP (fun x => key x < key a) + 1

def sortOn (l : List α) : List α := l.insertionSort fun a b => key a ≤ key b

variable {key} {l' : List α} {p : α → Bool} {k : ℕ}

theorem sortOn_perm : (sortOn key l).Perm l := List.perm_insertionSort _ l

theorem sortOn_pairwise (h : (l.map key).Nodup) :
    (sortOn key l).Pairwise fun a b => key a < key b := by
  have htotal : Std.Total fun a b : α => key a ≤ key b := ⟨fun a b => le_total (key a) (key b)⟩
  have htrans : IsTrans α fun a b => key a ≤ key b := ⟨fun a b c => le_trans⟩
  have hnodup : ((sortOn key l).map key).Nodup := (sortOn_perm.map key).nodup_iff.mpr h
  have hle : (sortOn key l).Pairwise fun a b => key a ≤ key b := List.pairwise_insertionSort _ l
  have hne : (sortOn key l).Pairwise fun a b => key a ≠ key b := List.pairwise_map.mp hnodup
  exact hle.imp₂ (fun a b hab hne => lt_of_le_of_ne hab hne) hne

/-- Where keys differ, the members of the first `k` ranks are the first `k` in order. -/
theorem rankOn_le_iff (h : (l.map key).Nodup) (ha : a ∈ l) :
    rankOn key l a ≤ k ↔ a ∈ (sortOn key l).take k := by
  have hsorted : (sortOn key l).Pairwise fun a b => key a < key b := sortOn_pairwise h
  have hperm : (sortOn key l).Perm l := sortOn_perm
  have hnodup : (sortOn key l).Nodup := hsorted.imp fun hlt heq => hlt.ne (congrArg key heq)
  obtain ⟨i, hi, rfl⟩ := List.mem_iff_getElem.mp (hperm.mem_iff.mpr ha)
  have hcount : (sortOn key l).countP (fun x => key x < key (sortOn key l)[i]) = i :=
    countP_ahead (fun x => lt_irrefl (key x)) (fun x y => lt_asymm) hsorted hi
  rw [hperm.countP_eq] at hcount
  rw [rankOn, hcount, List.mem_take_iff_getElem]
  constructor
  · intro hlt
    exact ⟨i, by omega, rfl⟩
  · rintro ⟨j, hj, heq⟩
    have := (hnodup.getElem_inj_iff).mp heq
    omega

/-- With fewer members, no rank gets worse. -/
theorem rankOn_mono (h : l'.Sublist l) : rankOn key l' a ≤ rankOn key l a :=
  Nat.succ_le_succ h.countP_le

/-- Only the members with smaller keys matter for a rank. -/
theorem rankOn_filter (h : ∀ x ∈ l, key x < key a → p x = true) :
    rankOn key (l.filter p) a = rankOn key l a := by
  rw [rankOn, rankOn, List.countP_filter]
  congr 1
  refine List.countP_congr fun x hx => ?_
  simp only [Bool.and_eq_true, decide_eq_true_eq]
  exact and_iff_left_of_imp (h x hx)

end

end Determined.Schemes
