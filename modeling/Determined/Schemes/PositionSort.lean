import Mathlib

/-! Insertion sort by a comparison of positions: `less i j` compares what stood at the positions `i`
    and `j` before the sort, not what the sort has moved there since.

    Such a comparison does not change while elements are swapped, so an element sinks to the start
    of the run of positions that rises up to its own. The sort reverses every such run, and leaves
    the runs in the order they are in. -/

namespace Determined.Schemes

variable {α : Type*}

/-- Swap the elements at `j` and `j + 1`. -/
def swapNext : ℕ → List α → List α
  | 0, x :: y :: xs => y :: x :: xs
  | j + 1, x :: xs => x :: swapNext j xs
  | _, xs => xs

/-- Swap the element at `j` down for as long as it compares less than the one below it. -/
def sink (less : ℕ → ℕ → Bool) : ℕ → List α → List α
  | 0, xs => xs
  | j + 1, xs => if less (j + 1) j then sink less j (swapNext j xs) else xs

/-- Insert the first elements one after the other. -/
def sinkFirst (less : ℕ → ℕ → Bool) : ℕ → List α → List α
  | 0, xs => xs
  | i + 1, xs => sink less i (sinkFirst less i xs)

def insertionSort (less : ℕ → ℕ → Bool) (xs : List α) : List α := sinkFirst less xs.length xs

/-! ### One element -/

/-- The start of the run that rises up to `j`. -/
def runStart (less : ℕ → ℕ → Bool) : ℕ → ℕ
  | 0 => 0
  | j + 1 => if less (j + 1) j then runStart less j else j + 1

/-- Every position after `i` compares less than the one before it, up to `j`. -/
def Rises (less : ℕ → ℕ → Bool) (i j : ℕ) : Prop :=
  ∀ k, i ≤ k → k < j → less (k + 1) k = true

variable {less : ℕ → ℕ → Bool} {i j n : ℕ}

theorem runStart_le (less : ℕ → ℕ → Bool) (j : ℕ) : runStart less j ≤ j := by
  induction j with
  | zero => exact le_rfl
  | succ j ih =>
    rw [runStart]
    split <;> omega

theorem rises_iff (h : i ≤ j) : Rises less i j ↔ runStart less j ≤ i := by
  induction j with
  | zero =>
    refine ⟨fun _ => Nat.zero_le i, fun _ k _ hk => ?_⟩
    omega
  | succ j ih =>
    rw [runStart]
    rcases Nat.eq_or_lt_of_le h with rfl | h
    · refine ⟨fun _ => ?_, fun _ k hk hk' => ?_⟩
      · have := runStart_le less j
        split <;> omega
      · omega
    · have hstep : Rises less i (j + 1) ↔ Rises less i j ∧ less (j + 1) j = true := by
        constructor
        · intro hr
          exact ⟨fun k hk hk' => hr k hk (by omega), hr j (by omega) (Nat.lt_succ_self j)⟩
        · rintro ⟨hr, hj⟩ k hk hk'
          rcases Nat.eq_or_lt_of_le (Nat.le_of_lt_succ hk') with rfl | hk'
          · exact hj
          · exact hr k hk hk'
      rw [hstep, ih (by omega)]
      split
      · rename_i hj
        simp [hj]
      · rename_i hj
        exact ⟨fun hr => absurd hr.2 hj, fun hle => absurd h (not_lt.mpr hle)⟩

theorem swapNext_append (pre : List α) (x y : α) (post : List α) :
    swapNext pre.length (pre ++ x :: y :: post) = pre ++ y :: x :: post := by
  induction pre with
  | nil => rfl
  | cons z pre ih => rw [List.length_cons, List.cons_append, swapNext, ih, List.cons_append]

/-- The element after `pre` sinks to the start of its run. -/
theorem sink_append (pre : List α) (x : α) (post : List α) :
    sink less pre.length (pre ++ x :: post) = pre.take (runStart less pre.length) ++
      x :: (pre.drop (runStart less pre.length) ++ post) := by
  induction pre using List.reverseRecOn generalizing post with
  | nil => rfl
  | append_singleton pre y ih =>
    have hle := runStart_le less pre.length
    rw [List.length_append, List.length_singleton, sink, runStart, List.append_assoc,
      List.singleton_append]
    split
    · rw [swapNext_append, ih, List.take_append_of_le_length hle, List.drop_append_of_le_length hle,
        List.append_assoc, List.singleton_append]
    · rw [List.take_of_length_le (by simp), List.drop_of_length_le (by simp), List.nil_append,
        List.append_assoc, List.singleton_append]

/-! ### All elements -/

/-- The positions below `i`, each inserted at the start of its run. -/
def arranged (less : ℕ → ℕ → Bool) : ℕ → List ℕ
  | 0 => []
  | i + 1 => (arranged less i).take (runStart less i) ++
      i :: (arranged less i).drop (runStart less i)

theorem arranged_perm (less : ℕ → ℕ → Bool) (i : ℕ) : (arranged less i).Perm (List.range i) := by
  induction i with
  | zero => exact .refl _
  | succ i ih =>
    rw [arranged, List.range_succ]
    refine List.perm_middle.trans ?_
    rw [List.take_append_drop]
    exact (ih.cons i).trans (List.perm_append_singleton i _).symm

theorem length_arranged (less : ℕ → ℕ → Bool) (i : ℕ) : (arranged less i).length = i := by
  rw [(arranged_perm less i).length_eq, List.length_range]

theorem mem_arranged : j ∈ arranged less i ↔ j < i := by
  rw [(arranged_perm less i).mem_iff, List.mem_range]

theorem sinkFirst_append (i : ℕ) (post : List ℕ) :
    sinkFirst less i (List.range i ++ post) = arranged less i ++ post := by
  induction i generalizing post with
  | zero => rfl
  | succ i ih =>
    have hsink : sink less _ _ = _ := sink_append (arranged less i) i post
    rw [length_arranged] at hsink
    rw [sinkFirst, List.range_succ, List.append_assoc, List.singleton_append, ih, hsink, arranged,
      List.append_assoc, List.cons_append]

theorem insertionSort_range (less : ℕ → ℕ → Bool) (n : ℕ) :
    insertionSort less (List.range n) = arranged less n := by
  simpa [insertionSort] using (sinkFirst_append n [] : sinkFirst less n _ = _)

theorem insertionSort_range_perm (less : ℕ → ℕ → Bool) (n : ℕ) :
    (insertionSort less (List.range n)).Perm (List.range n) := by
  rw [insertionSort_range]
  exact arranged_perm less n

/-- The positions before the run of `i` come first. -/
theorem arranged_split (less : ℕ → ℕ → Bool) (i : ℕ) :
    (∀ j ∈ (arranged less i).take (runStart less i), j < runStart less i) ∧
      ∀ j ∈ (arranged less i).drop (runStart less i), runStart less i ≤ j := by
  induction i with
  | zero => simp [arranged]
  | succ i ih =>
    have hle := runStart_le less i
    rw [runStart]
    split
    · have htake : ((arranged less i).take (runStart less i)).length = runStart less i := by
        rw [List.length_take, length_arranged, Nat.min_eq_left hle]
      rw [arranged, List.take_left' htake, List.drop_left' htake]
      exact ⟨ih.1, List.forall_mem_cons.mpr ⟨hle, ih.2⟩⟩
    · have hlen := length_arranged less (i + 1)
      rw [List.take_of_length_le hlen.le, List.drop_of_length_le hlen.le]
      exact ⟨fun j hj => mem_arranged.mp hj, by simp⟩

/-- The sort leaves `i` before `j`: a later position comes first just if the positions rise up to
    it. -/
def LeftBefore (less : ℕ → ℕ → Bool) (i j : ℕ) : Prop :=
  i < j ∧ ¬ Rises less i j ∨ j < i ∧ Rises less j i

theorem arranged_pairwise (less : ℕ → ℕ → Bool) (i : ℕ) :
    (arranged less i).Pairwise (LeftBefore less) := by
  induction i with
  | zero => exact .nil
  | succ i ih =>
    obtain ⟨hbefore, hrun⟩ := arranged_split less i
    rw [← List.take_append_drop (runStart less i) (arranged less i)] at ih
    obtain ⟨htake, hdrop, hacross⟩ := List.pairwise_append.mp ih
    refine List.pairwise_append.mpr ⟨htake, List.pairwise_cons.mpr ⟨fun j hj => ?_, hdrop⟩, ?_⟩
    · have hji : j < i := mem_arranged.mp (List.mem_of_mem_drop hj)
      exact .inr ⟨hji, (rises_iff hji.le).mpr (hrun j hj)⟩
    · intro j hj
      refine List.forall_mem_cons.mpr ⟨?_, hacross j hj⟩
      have hji : j < i := mem_arranged.mp (List.mem_of_mem_take hj)
      have hlt := hbefore j hj
      refine .inl ⟨hji, ?_⟩
      rw [rises_iff hji.le]
      omega

/-- What is found first in the sorted positions comes before all others that could be found. -/
theorem find?_insertionSort {p : ℕ → Bool} {i : ℕ}
    (h : (insertionSort less (List.range n)).find? p = some i) {j : ℕ} (hj : j < n)
    (hp : p j = true) : j = i ∨ LeftBefore less i j := by
  rw [insertionSort_range] at h
  obtain ⟨-, before, after, heq, hnone⟩ := List.find?_eq_some_iff_append.mp h
  have hpair := arranged_pairwise less n
  have hmem : j ∈ arranged less n := mem_arranged.mpr hj
  rw [heq] at hpair hmem
  rcases List.mem_append.mp hmem with hmem | hmem
  · simpa [hp] using hnone j hmem
  · rcases List.mem_cons.mp hmem with hji | hmem
    · exact .inl hji
    · exact .inr ((List.pairwise_cons.mp (List.pairwise_append.mp hpair).2.1).1 j hmem)

end Determined.Schemes
