import Mathlib

/-! Driving a system that asks for one piece of work at a time.

    The environment answers the system's requests from a stream of outcomes. The system *finishes*
    if after finitely many answers it is done. Two rules settle that: a rank that every answered
    request lowers (`Finishes.of_rank`), and a property that every finishing state must have
    (`Finishes.induction`). -/

namespace Determined.Schemes

variable {σ ο φ : Type*} {step : σ → ο → Except φ σ} {done : σ → Prop}

/-- The state after `n` steps, the k-th of them given the k-th outcome. -/
def drive (step : σ → ο → Except φ σ) (outcomes : ℕ → ο) : ℕ → σ → Except φ σ
  | 0, s => .ok s
  | n + 1, s => (step s (outcomes 0)).bind (drive step (fun k => outcomes (k + 1)) n)

/-- The system is done after finitely many steps. -/
def Finishes (step : σ → ο → Except φ σ) (done : σ → Prop) (outcomes : ℕ → ο) (s : σ) : Prop :=
  ∃ n t, drive step outcomes n s = .ok t ∧ done t

theorem Finishes.now {outcomes : ℕ → ο} {s : σ} (h : done s) : Finishes step done outcomes s :=
  ⟨0, s, rfl, h⟩

theorem Finishes.later {outcomes : ℕ → ο} {s t : σ} (hst : step s (outcomes 0) = .ok t)
    (h : Finishes step done (fun k => outcomes (k + 1)) t) : Finishes step done outcomes s := by
  obtain ⟨n, u, hu, hd⟩ := h
  refine ⟨n + 1, u, ?_, hd⟩
  rw [drive, hst]
  exact hu

/-- A step that is not yet done decides nothing by itself. -/
theorem finishes_iff_later {outcomes : ℕ → ο} {s t : σ} (hd : ¬ done s)
    (hst : step s (outcomes 0) = .ok t) : Finishes step done outcomes s ↔
      Finishes step done (fun k => outcomes (k + 1)) t := by
  refine ⟨?_, .later hst⟩
  rintro ⟨n, u, hn, hdu⟩
  cases n with
  | zero => cases hn; exact absurd hdu hd
  | succ n =>
    rw [drive, hst] at hn
    exact ⟨n, u, hn, hdu⟩

/-- Rank rule: as long as it is not done, the system takes a step that keeps the invariant and
    lowers its rank, whatever the outcome. -/
theorem Finishes.of_rank {α : Type*} [LT α] [WellFoundedLT α] {I : σ → Prop} (rank : σ → α)
    (hstep : ∀ s o, I s → ¬ done s → ∃ t, step s o = .ok t ∧ I t ∧ rank t < rank s) {s : σ}
    (hs : I s) (outcomes : ℕ → ο) : Finishes step done outcomes s := by
  have hwf : WellFounded (InvImage (· < ·) rank) := InvImage.wf rank wellFounded_lt
  induction s using hwf.induction generalizing outcomes with
  | h s ih =>
    by_cases hd : done s
    · exact .now hd
    · obtain ⟨t, hst, ht, hlt⟩ := hstep s (outcomes 0) hs hd
      exact .later hst (ih t hlt ht _)

/-- What holds of every state that is done, and of a state whenever it holds after its next step,
    holds of every state that finishes. -/
theorem Finishes.induction {I Q : σ → Prop}
    (hstep : ∀ s o, I s → ¬ done s → ∃ t, step s o = .ok t ∧ I t ∧ (Q t → Q s))
    (hdone : ∀ s, I s → done s → Q s) {s : σ} {outcomes : ℕ → ο} (hs : I s)
    (h : Finishes step done outcomes s) : Q s := by
  obtain ⟨n, u, hn, hd⟩ := h
  induction n generalizing s outcomes with
  | zero => cases hn; exact hdone _ hs hd
  | succ n ih =>
    by_cases hds : done s
    · exact hdone s hs hds
    · obtain ⟨t, hst, ht, hQ⟩ := hstep s (outcomes 0) hs hds
      rw [drive, hst] at hn
      exact hQ (ih ht hn)

end Determined.Schemes
