import Mathlib.Data.List.Forall2
import Mathlib.Control.Lawful

/-! Partial correctness of computations that change a state and may stop.

    `Ensures c P` says that whatever `c` returns, from any state, satisfies `P`. The rules follow the
    computation: a value returned, one computation after another, and one for each element of a
    list. -/

namespace Determined.Schemes

universe u

variable {σ ε : Type u} {α : Type*} {β γ : Type u}

/-- Whatever the computation returns satisfies `P`. -/
def Ensures (c : StateT σ (Except ε) β) (P : β → Prop) : Prop :=
  ∀ s r t, c s = .ok (r, t) → P r

theorem Ensures.mono {c : StateT σ (Except ε) β} {P Q : β → Prop} (h : Ensures c P)
    (hPQ : ∀ r, P r → Q r) : Ensures c Q := fun s r t hc => hPQ r (h s r t hc)

theorem ensures_pure {P : β → Prop} {r : β} (h : P r) :
    Ensures (pure r : StateT σ (Except ε) β) P := by
  rintro s r' t ⟨⟩
  exact h

theorem ensures_throw {P : β → Prop} (e : ε) :
    Ensures (fun _ => .error e : StateT σ (Except ε) β) P := by
  rintro s r t ⟨⟩

/-- What a computation returned is handed to the next one. -/
theorem bind_of_eq_ok {c : StateT σ (Except ε) β} {f : β → StateT σ (Except ε) γ} {s t : σ} {r : β}
    (h : c s = .ok (r, t)) : (c >>= f) s = f r t := by
  change (c s >>= fun x => f x.1 x.2) = f r t
  rw [h]
  rfl

theorem Ensures.bind {c : StateT σ (Except ε) β} {P : β → Prop}
    {f : β → StateT σ (Except ε) γ} {Q : γ → Prop} (h : Ensures c P)
    (hf : ∀ r, P r → Ensures (f r) Q) : Ensures (c >>= f) Q := by
  intro s r t hc
  cases hcs : c s with
  | error e =>
    change (c s >>= fun x => f x.1 x.2) = .ok (r, t) at hc
    rw [hcs] at hc
    cases hc
  | ok x =>
    rw [bind_of_eq_ok hcs] at hc
    exact hf x.1 (h s x.1 x.2 hcs) x.2 r t hc

/-- A computation may be run for its effect alone. -/
theorem ensures_any (c : StateT σ (Except ε) β) : Ensures c fun _ => True :=
  fun _ _ _ _ => trivial

/-- One computation for each element returns one value for each. -/
theorem ensures_mapM {f : α → StateT σ (Except ε) β} {R : α → β → Prop} {l : List α}
    (h : ∀ a ∈ l, Ensures (f a) (R a)) : Ensures (l.mapM f) (List.Forall₂ R l) := by
  induction l with
  | nil => exact ensures_pure .nil
  | cons a l ih =>
    rw [List.mapM_cons]
    refine (h a List.mem_cons_self).bind fun b hb => ?_
    refine (ih fun a' ha' => h a' (List.mem_cons_of_mem _ ha')).bind fun bs hbs => ?_
    exact ensures_pure (.cons hb hbs)

end Determined.Schemes
