import Mathlib

/-! Runtime correctness checks (`determined_common/check.py`). A check that fails raises
    `CheckFailedError`; its message names the actual and the expected value. -/

namespace Determined.Harness

universe u v

variable {α γ : Type}

/-! ### Results that may be errors -/

@[simp] theorem ok_bind {α γ : Type u} {ε : Type v} (a : α) (f : α → Except ε γ) :
    (Except.ok a >>= f) = f a := rfl

theorem mapM_eq_ok {f : α → Except String γ} {g : α → γ} {l : List α}
    (h : ∀ a ∈ l, f a = .ok (g a)) : l.mapM f = .ok (l.map g) := by
  induction l with
  | nil => rfl
  | cons a l ih =>
    rw [List.mapM_cons, h a (List.mem_cons_self ..),
      ih fun b hb => h b (List.mem_cons_of_mem _ hb)]
    rfl

/-! ### Checks -/

/-- What every check does: raise the message, with the reason after it, unless the check holds. -/
def check (holds : Bool) (msg : String) (reason : Option String) : Except String PUnit.{u + 1} :=
  if holds then .ok ⟨⟩ else .error ("CHECK FAILED! " ++ msg ++ match reason with
    | some reason => ": " ++ reason
    | none => "")

theorem check_eq_ok {holds : Bool} {msg : String} {reason : Option String} (h : holds = true) :
    check.{u} holds msg reason = .ok ⟨⟩ := by
  simp only [check, h, if_true]

theorem check_eq_ok_iff {holds : Bool} {msg : String} {reason : Option String} :
    check.{u} holds msg reason = .ok ⟨⟩ ↔ holds = true := by
  refine ⟨fun h => ?_, check_eq_ok⟩
  cases holds with
  | false => simp [check] at h
  | true => rfl

def check.true (val : Bool) (reason : Option String) : Except String PUnit.{u + 1} :=
  check val "Got False, expected True" reason

def check.eq (val expected : ℤ) (reason : Option String) : Except String PUnit.{u + 1} :=
  check (decide (val = expected)) (s!"Got {val}, expected {expected}") reason

def check.gt (x y : ℤ) (reason : Option String) : Except String PUnit.{u + 1} :=
  check (decide (x > y)) (s!"Got {x}, expected value > {y}") reason

def check.gt_eq (x y : ℤ) (reason : Option String) : Except String PUnit.{u + 1} :=
  check (decide (x ≥ y)) (s!"Got {x}, expected value >= {y}") reason

def check.lt (x y : ℤ) (reason : Option String) : Except String PUnit.{u + 1} :=
  check (decide (x < y)) (s!"Got {x}, expected value < {y}") reason

end Determined.Harness
