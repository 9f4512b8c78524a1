import Mathlib

/-! Loops that return a result: `body s` is the next state of the loop, or what it returns.

    `Returns` is the loop's meaning (a loop that runs for ever returns nothing) and `Visits` the
    states its iterations start in. `returns_iff` is the rule for a loop that is right exactly if
    none of its iterations goes wrong: an iteration that does not go wrong keeps the invariant and
    lowers the rank, one that does spoils the result or keeps the loop from returning. -/

namespace Determined.Schemes

variable {σ ρ : Type*} {body : σ → σ ⊕ ρ}

/-- From `s` the loop returns `r`. -/
inductive Returns (body : σ → σ ⊕ ρ) : σ → ρ → Prop
  | stop {s : σ} {r : ρ} : body s = .inr r → Returns body s r
  | next {s t : σ} {r : ρ} : body s = .inl t → Returns body t r → Returns body s r

/-- An iteration of the loop started in `s` starts in `u`. -/
inductive Visits (body : σ → σ ⊕ ρ) : σ → σ → Prop
  | start (s : σ) : Visits body s s
  | next {s t u : σ} : body s = .inl t → Visits body t u → Visits body s u

theorem returns_stop_iff {s : σ} {r r' : ρ} (h : body s = .inr r) : Returns body s r' ↔ r' = r := by
  constructor
  · rintro (h' | ⟨h', -⟩)
    · exact Sum.inr.inj (h'.symm.trans h)
    · rw [h] at h'; cases h'
  · rintro rfl
    exact .stop h

theorem returns_next_iff {s t : σ} {r : ρ} (h : body s = .inl t) :
    Returns body s r ↔ Returns body t r := by
  constructor
  · rintro (h' | ⟨h', hr⟩)
    · rw [h] at h'; cases h'
    · rwa [Sum.inl.inj (h.symm.trans h')]
  · exact .next h

theorem forall_visits_next {P : σ → Prop} {s t : σ} (h : body s = .inl t) :
    (∀ u, Visits body s u → P u) ↔ P s ∧ ∀ u, Visits body t u → P u := by
  constructor
  · exact fun hall => ⟨hall s (.start s), fun u hu => hall u (.next h hu)⟩
  · rintro ⟨hs, hall⟩ u (_ | ⟨h', hu⟩)
    · exact hs
    · rw [h] at h'
      cases h'
      exact hall u hu

theorem forall_visits_stop {P : σ → Prop} {s : σ} {r : ρ} (h : body s = .inr r) :
    (∀ u, Visits body s u → P u) ↔ P s := by
  constructor
  · exact fun hall => hall s (.start s)
  · rintro hs u (_ | ⟨h', -⟩)
    · exact hs
    · rw [h] at h'; cases h'

/-- What holds of every result returned at once, and of a state whenever it holds of the next one,
    holds of every state the loop returns from. -/
theorem Returns.invariant {I : σ → Prop} {P : ρ → Prop}
    (hnext : ∀ s t, I s → body s = .inl t → I t) (hstop : ∀ s r, I s → body s = .inr r → P r)
    {s : σ} {r : ρ} (h : Returns body s r) (hs : I s) : P r := by
  induction h with
  | stop hb => exact hstop _ _ hs hb
  | next hb _ ih => exact ih (hnext _ _ hs hb)

/-- Rank rule: a loop whose iterations keep an invariant and lower a rank returns. -/
theorem returns_of_rank {α : Type*} [LT α] [WellFoundedLT α] {I : σ → Prop} (rank : σ → α)
    (hnext : ∀ s t, I s → body s = .inl t → I t ∧ rank t < rank s) {s : σ} (hs : I s) :
    ∃ r, Returns body s r := by
  have hwf : WellFounded (InvImage (· < ·) rank) := InvImage.wf rank wellFounded_lt
  induction s using hwf.induction with
  | h s ih =>
    cases hb : body s with
    | inr r => exact ⟨r, .stop hb⟩
    | inl t =>
      obtain ⟨ht, hlt⟩ := hnext s t hs hb
      obtain ⟨r, hr⟩ := ih t hlt ht
      exact ⟨r, .next hb hr⟩

/-- First-failure rule: the loop returns a result with `P` iff every iteration is fine. -/
theorem returns_iff {α : Type*} [LT α] [WellFoundedLT α] {I Fine : σ → Prop} {P : ρ → Prop}
    (rank : σ → α) (hnext : ∀ s t, I s → Fine s → body s = .inl t → I t ∧ rank t < rank s)
    (hstop : ∀ s r, I s → Fine s → body s = .inr r → P r)
    (hbad : ∀ s r, I s → ¬ Fine s → Returns body s r → ¬ P r) {s : σ} (hs : I s) :
    (∃ r, Returns body s r ∧ P r) ↔ ∀ u, Visits body s u → Fine u := by
  have hwf : WellFounded (InvImage (· < ·) rank) := InvImage.wf rank wellFounded_lt
  induction s using hwf.induction with
  | h s ih =>
    by_cases hf : Fine s
    · cases hb : body s with
      | inr r =>
        rw [forall_visits_stop hb]
        exact ⟨fun _ => hf, fun _ => ⟨r, .stop hb, hstop s r hs hf hb⟩⟩
      | inl t =>
        obtain ⟨ht, hlt⟩ := hnext s t hs hf hb
        have hrest : (∃ r, Returns body t r ∧ P r) ↔ ∀ u, Visits body t u → Fine u := ih t hlt ht
        simp only [forall_visits_next hb, returns_next_iff hb, hf, true_and]
        exact hrest
    · constructor
      · rintro ⟨r, hr, hP⟩
        exact absurd hP (hbad s r hs hf hr)
      · exact fun hall => absurd (hall s (.start s)) hf

/-- Run a loop for at most `n` iterations. -/
def loop (body : σ → σ ⊕ ρ) : ℕ → σ → Option ρ
  | 0, _ => none
  | n + 1, s => match body s with
    | .inl t => loop body n t
    | .inr r => some r

theorem Returns.of_loop {n : ℕ} {s : σ} {r : ρ} (h : loop body n s = some r) :
    Returns body s r := by
  induction n generalizing s with
  | zero => cases h
  | succ n ih =>
    rw [loop] at h
    cases hb : body s with
    | inl t => rw [hb] at h; exact .next hb (ih h)
    | inr r' =>
      rw [hb] at h
      cases h
      exact .stop hb

/-- A computed summary of a computed result is a summary of a result. -/
theorem Returns.exists_of_loop {α : Type*} (n : ℕ) {s : σ} (summary : ρ → α) {v : α}
    (h : (loop body n s).map summary = some v) : ∃ r, Returns body s r ∧ summary r = v := by
  obtain ⟨r, hr, hv⟩ := Option.map_eq_some_iff.mp h
  exact ⟨r, .of_loop hr, hv⟩

/-- Check the states a loop visits, for at most `n` iterations; the loop has to return by then. -/
def loopAll (body : σ → σ ⊕ ρ) (p : σ → Bool) : ℕ → σ → Bool
  | 0, _ => false
  | n + 1, s => p s && match body s with
    | .inl t => loopAll body p n t
    | .inr _ => true

theorem forall_visits_of_loopAll {p : σ → Bool} {n : ℕ} {s : σ} (h : loopAll body p n s = true) :
    ∀ u, Visits body s u → p u = true := by
  induction n generalizing s with
  | zero => cases h
  | succ n ih =>
    rw [loopAll, Bool.and_eq_true] at h
    obtain ⟨hp, h⟩ := h
    cases hb : body s with
    | inl t =>
      rw [hb] at h
      exact (forall_visits_next hb).mpr ⟨hp, ih h⟩
    | inr r => exact (forall_visits_stop hb).mpr hp

end Determined.Schemes
