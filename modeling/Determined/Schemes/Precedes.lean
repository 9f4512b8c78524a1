import Mathlib

/-! Which of two elements of a list comes first.

    `[x, y]` is a sublist of `l` when some occurrence of `x` stands before some occurrence of `y`.
    Over histories without repetition that is the order in which the two happened. -/

namespace Determined.Schemes

variable {α : Type*} {l l' : List α} {x y : α}

/-- `x` stands before `y` in `l`. -/
def Precedes (l : List α) (x y : α) : Prop := [x, y].Sublist l

theorem Precedes.mem_left (h : Precedes l x y) : x ∈ l := List.Sublist.subset h (by simp)

theorem Precedes.mem_right (h : Precedes l x y) : y ∈ l := List.Sublist.subset h (by simp)

theorem Precedes.append (h : Precedes l x y) (l' : List α) : Precedes (l ++ l') x y :=
  List.Sublist.trans h (List.sublist_append_left l l')

/-- What was there comes before what is added at the end. -/
theorem precedes_concat (h : x ∈ l) : Precedes (l ++ [y]) x y :=
  (List.singleton_sublist.mpr h).append (List.Sublist.refl [y])

/-- One more element at the end only comes after others. -/
theorem precedes_concat_iff {z : α} :
    Precedes (l ++ [z]) x y ↔ Precedes l x y ∨ (x ∈ l ∧ y = z) := by
  constructor
  · intro h
    obtain ⟨a, b, hab, ha, hb⟩ := List.sublist_append_iff.mp h
    rcases List.sublist_singleton.mp hb with rfl | rfl
    · rw [List.append_nil] at hab
      exact .inl (by rwa [← hab] at ha)
    · have hab' : [x] ++ [y] = a ++ [z] := hab
      obtain ⟨rfl, hz⟩ := List.append_inj' hab' rfl
      exact .inr ⟨List.singleton_sublist.mp ha, by simpa using hz⟩
  · rintro (h | ⟨hx, rfl⟩)
    · exact h.append [z]
    · exact precedes_concat hx

/-- Leaving others out keeps the order. -/
theorem Precedes.filter {p : α → Bool} (h : Precedes l x y) (hx : p x) (hy : p y) :
    Precedes (l.filter p) x y := by
  have := List.Sublist.filter p h
  simpa [hx, hy, Precedes] using this

/-- In a list without repetition, what stands before a member of a prefix is in the prefix. -/
theorem Precedes.of_append (h : Precedes (l ++ l') x y) (hnodup : (l ++ l').Nodup) (hy : y ∈ l) :
    Precedes l x y := by
  have hyl' : y ∉ l' := fun hy' => List.disjoint_of_nodup_append hnodup hy hy'
  obtain ⟨a, b, hab, ha, hb⟩ := List.sublist_append_iff.mp h
  rcases List.eq_nil_or_concat b with rfl | ⟨b', z, rfl⟩
  · rw [List.append_nil] at hab
    rwa [← hab] at ha
  · have hz : y = z := by
      have := congrArg List.getLast? hab
      simpa [← List.append_assoc] using this
    exact absurd (hb.subset (by simp [hz])) hyl'

end Determined.Schemes
