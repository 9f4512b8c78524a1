import Mathlib

/-! Max-min fair division of indivisible slots: `demand g` is what `g` asks for, `offer g` what it is
    given. A division is fair if nothing is left that somebody asked for, nobody is given more than
    they asked for, and whoever is short of their demand is at most one slot below anyone else. -/

namespace Determined.Schemes

variable {α : Type*} {demand offer : α → ℤ} {capacity : ℤ} {l : List α}

structure MaxMinFair (l : List α) (demand offer : α → ℤ) (capacity : ℤ) : Prop where
  total : (l.map offer).sum = min capacity (l.map demand).sum
  le_demand : ∀ g ∈ l, offer g ≤ demand g
  level : ∀ g ∈ l, offer g < demand g → ∀ h ∈ l, offer h ≤ offer g + 1

/-- Only what is demanded and offered matters. -/
theorem maxMinFair_map {β : Type*} (f : β → α) {l : List β} :
    MaxMinFair (l.map f) demand offer capacity ↔
      MaxMinFair l (fun g => demand (f g)) (fun g => offer (f g)) capacity := by
  constructor
  · rintro ⟨htotal, hle, hlevel⟩
    simp only [List.map_map, Function.comp_def, List.forall_mem_map] at htotal hle hlevel
    exact ⟨htotal, hle, hlevel⟩
  · rintro ⟨htotal, hle, hlevel⟩
    refine ⟨?_, ?_, ?_⟩
    · simpa only [List.map_map, Function.comp_def] using htotal
    · simpa only [List.forall_mem_map] using hle
    · simpa only [List.forall_mem_map] using hlevel

/-- If the whole capacity is given away and nobody gets too much, the total is right. -/
theorem total_of_exhausted (hsum : (l.map offer).sum = capacity)
    (hle : ∀ g ∈ l, offer g ≤ demand g) :
    (l.map offer).sum = min capacity (l.map demand).sum := by
  have := List.sum_le_sum hle
  omega

/-- Everybody's demand, if it can be given, is fair. -/
theorem maxMinFair_of_satisfied (hle : (l.map offer).sum ≤ capacity)
    (hall : ∀ g ∈ l, offer g = demand g) : MaxMinFair l demand offer capacity where
  total := by
    have heq : l.map offer = l.map demand := List.map_congr_left hall
    rw [← heq]
    omega
  le_demand g hg := (hall g hg).le
  level g hg hlt := absurd (hall g hg) hlt.ne

/-- A division of the whole capacity is fair iff nobody is given more than one slot above the least
    that a group short of its demand is given. -/
theorem maxMinFair_iff_of_least (least : ℤ) (hsum : (l.map offer).sum = capacity)
    (hle : ∀ g ∈ l, offer g ≤ demand g)
    (hleast : ∀ g ∈ l, offer g < demand g → least ≤ offer g)
    (hex : ∃ g ∈ l, offer g < demand g ∧ offer g = least) :
    MaxMinFair l demand offer capacity ↔ ∀ h ∈ l, offer h ≤ least + 1 := by
  constructor
  · intro hfair h hh
    obtain ⟨g, hg, hlt, rfl⟩ := hex
    exact hfair.level g hg hlt h hh
  · intro hall
    refine ⟨total_of_exhausted hsum hle, hle, fun g hg hlt h hh => ?_⟩
    have := hleast g hg hlt
    have := hall h hh
    omega

end Determined.Schemes
