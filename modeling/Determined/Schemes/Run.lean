import Mathlib

/-! Runs of a labelled transition system.

    A run is kept together with its *trace*: the edges `(pre, event, post)` it takes, in order. A
    property of every step of a run is then a property of the members of the trace, and "every
    step meets a guard" needs no second run relation. The two rules the models use are
    `Run.guarded` (an invariant that steps preserve under a guard holds at every edge) and
    `Run.forall_iff` (up to the first offending step, two step properties that agree under an
    invariant are interchangeable). -/

namespace Determined.Schemes

/-- One step of a run, with the states around it. -/
structure Edge (σ ε : Type*) where
  pre : σ
  event : ε
  post : σ

variable {σ ε : Type*} {Step : σ → ε → σ → Prop}

/-- `Run Step s tr t`: from `s` the system reaches `t` along the edges of `tr`. -/
inductive Run (Step : σ → ε → σ → Prop) : σ → List (Edge σ ε) → σ → Prop
  | nil (s : σ) : Run Step s [] s
  | cons {s t u : σ} {e : ε} {tr : List (Edge σ ε)} :
      Step s e t → Run Step t tr u → Run Step s (⟨s, e, t⟩ :: tr) u

/-- A state some run leads to. -/
def Reach (Step : σ → ε → σ → Prop) (s t : σ) : Prop := ∃ tr, Run Step s tr t

theorem Run.append {s t u : σ} {tr tr' : List (Edge σ ε)} (h : Run Step s tr t)
    (h' : Run Step t tr' u) : Run Step s (tr ++ tr') u := by
  induction h with
  | nil _ => exact h'
  | cons hs _ ih => exact .cons hs (ih h')

theorem Run.snoc {s t u : σ} {e : ε} {tr : List (Edge σ ε)} (h : Run Step s tr t)
    (hs : Step t e u) : Run Step s (tr ++ [⟨t, e, u⟩]) u :=
  h.append (.cons hs (.nil u))

/-- A run passes through a state between any two parts of its trace. -/
theorem Run.of_append {s t : σ} {tr tr' : List (Edge σ ε)} (h : Run Step s (tr ++ tr') t) :
    ∃ u, Run Step s tr u ∧ Run Step u tr' t := by
  induction tr generalizing s with
  | nil => exact ⟨s, .nil s, h⟩
  | cons x tr ih =>
    cases h with
    | cons hs hrun =>
      obtain ⟨u, hu, hrest⟩ := ih hrun
      exact ⟨u, .cons hs hu, hrest⟩

/-- Every edge of a trace is a step of the system. -/
theorem Run.step {s t : σ} {tr : List (Edge σ ε)} (h : Run Step s tr t) :
    ∀ x ∈ tr, Step x.pre x.event x.post := by
  induction h with
  | nil _ => simp
  | cons hs _ ih =>
    intro x hx
    rcases List.mem_cons.mp hx with rfl | hx
    · exact hs
    · exact ih x hx

/-- An invariant that every step preserves as long as the step meets the guard `G` holds before
    and after each edge of a run whose edges all meet `G`. -/
theorem Run.guarded {I : σ → Prop} {G : Edge σ ε → Prop}
    (hstep : ∀ s e t, I s → Step s e t → G ⟨s, e, t⟩ → I t) {s t : σ} {tr : List (Edge σ ε)}
    (h : Run Step s tr t) (hs : I s) (hG : ∀ x ∈ tr, G x) :
    (∀ x ∈ tr, I x.pre ∧ I x.post) ∧ I t := by
  induction h with
  | nil _ => exact ⟨by simp, hs⟩
  | cons hst _ ih =>
    have ht := hstep _ _ _ hs hst (hG _ (List.mem_cons_self ..))
    obtain ⟨hall, hend⟩ := ih ht (fun x hx => hG x (List.mem_cons_of_mem _ hx))
    refine ⟨fun x hx => ?_, hend⟩
    rcases List.mem_cons.mp hx with rfl | hx
    · exact ⟨hs, ht⟩
    · exact hall x hx

/-- An invariant that every step preserves holds along the whole run. -/
theorem Run.invariant {I : σ → Prop} (hstep : ∀ s e t, I s → Step s e t → I t) {s t : σ}
    {tr : List (Edge σ ε)} (h : Run Step s tr t) (hs : I s) :
    (∀ x ∈ tr, I x.pre ∧ I x.post) ∧ I t :=
  h.guarded (G := fun _ => True) (fun s e t hI hst _ => hstep s e t hI hst) hs (fun _ _ => trivial)

/-- An invariant of every step holds in every reachable state. -/
theorem Reach.invariant {I : σ → Prop} (hstep : ∀ s e t, I s → Step s e t → I t) {s t : σ}
    (h : Reach Step s t) (hs : I s) : I t := by
  obtain ⟨tr, hrun⟩ := h
  exact (hrun.invariant hstep hs).2

/-- First-failure rule: if `P` and `G` agree on every step taken from the invariant, and a step
    that meets `G` keeps the invariant, then a run satisfies `P` throughout iff it satisfies `G`
    throughout. Before the first step where either fails the invariant still holds, so there the
    two agree. -/
theorem Run.forall_iff {I : σ → Prop} {P G : Edge σ ε → Prop}
    (hiff : ∀ s e t, I s → Step s e t → (P ⟨s, e, t⟩ ↔ G ⟨s, e, t⟩))
    (hstep : ∀ s e t, I s → Step s e t → G ⟨s, e, t⟩ → I t) {s t : σ} {tr : List (Edge σ ε)}
    (h : Run Step s tr t) (hs : I s) : (∀ x ∈ tr, P x) ↔ (∀ x ∈ tr, G x) := by
  induction h with
  | nil _ => simp
  | cons hst _ ih =>
    simp only [List.forall_mem_cons, hiff _ _ _ hs hst]
    refine and_congr_right fun hG => ih (hstep _ _ _ hs hst hG)

/-! ### Executable systems -/

/-- Run a list of events through an executable step, keeping the trace. -/
def exec (step : σ → ε → Option σ) (s : σ) : List ε → Option (List (Edge σ ε) × σ)
  | [] => some ([], s)
  | e :: es => (step s e).bind fun t =>
    (exec step t es).map fun r => (⟨s, e, t⟩ :: r.1, r.2)

/-- What `exec` computes is a run. -/
theorem Run.of_exec {step : σ → ε → Option σ} (hstep : ∀ s e t, step s e = some t → Step s e t)
    {es : List ε} : ∀ {s t : σ} {tr : List (Edge σ ε)}, exec step s es = some (tr, t) →
      Run Step s tr t := by
  induction es with
  | nil => intro s t tr h; cases h; exact .nil s
  | cons e es ih =>
    intro s t tr h
    simp only [exec, Option.bind_eq_some_iff, Option.map_eq_some_iff] at h
    obtain ⟨u, hu, ⟨tr', t'⟩, hexec, heq⟩ := h
    cases heq
    exact .cons (hstep s e u hu) (ih hexec)

/-- The trace `exec` computes has the events it was given. -/
theorem exec_events {step : σ → ε → Option σ} {es : List ε} :
    ∀ {s t : σ} {tr : List (Edge σ ε)}, exec step s es = some (tr, t) → tr.map (·.event) = es := by
  induction es with
  | nil => intro s t tr h; cases h; rfl
  | cons e es ih =>
    intro s t tr h
    simp only [exec, Option.bind_eq_some_iff, Option.map_eq_some_iff] at h
    obtain ⟨u, -, ⟨tr', t'⟩, hexec, heq⟩ := h
    cases heq
    simp [ih hexec]

/-- A computed summary of a computed run is a summary of a run. -/
theorem Run.exists_of_exec {step : σ → ε → Option σ} {α : Type*}
    (hstep : ∀ s e t, step s e = some t → Step s e t) (summary : List (Edge σ ε) × σ → α) {s : σ}
    {es : List ε} {v : α} (h : (exec step s es).map summary = some v) :
    ∃ tr t, Run Step s tr t ∧ tr.map (·.event) = es ∧ summary (tr, t) = v := by
  obtain ⟨⟨tr, t⟩, hexec, hv⟩ := Option.map_eq_some_iff.mp h
  exact ⟨tr, t, .of_exec hstep hexec, exec_events hexec, hv⟩

end Determined.Schemes
