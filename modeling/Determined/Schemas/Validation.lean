import Determined.Schemas.Extensions

/-! Validation against a schema, in the master and in the client.

    The standard keywords are left to the libraries: which schemas below a keyword are applied to
    which values, and what follows from their outcomes. A `$ref` is such a keyword, with the schema
    that it refers to below it. The master reads a map in any order; a draw is made for each place
    that a validation comes to. -/

namespace Determined.Schemas

/-- A schema over the standard keywords `σ`; an object of keywords is the list of them. -/
inductive Schema (σ : Type) where
  /-- `true` or `false` -/
  | always (accept : Bool)
  | keywords (ks : List (Schema σ))
  | standard (keyword : σ) (below : List (Schema σ))
  | compareProperties (cmp : CompareProperty)
  | eventuallyRequired (required : List String)
  | disallowProperties (disallowed : List (String × String))
  | checks (checks : List (String × Schema σ))
  | conditional (test : Test) (tested enforce : Schema σ)
  | union (defaultMessage : Option String) (items : List (String × Schema σ))

/-- What a library does at a standard keyword. -/
structure Library (σ : Type) where
  /-- The schemas below the keyword that are applied, and the values that they are applied to. -/
  parts : σ → JSON → List (ℕ × JSON)
  judge : σ → JSON → List Outcome → Outcome

/-- The way to a place of a validation, the last step first. -/
abbrev Site := List ℕ

/-- The errors of several validations. -/
def both (o₁ o₂ : Outcome) : Outcome := do
  let errors₁ ← o₁
  let errors₂ ← o₂
  return errors₁ ++ errors₂

def refused : Outcome := some ["False schema does not allow the value"]

namespace Schema

variable {σ : Type} (lib : Library σ) (draws : Site → ℕ)

/-! ### The master -/

mutual

def validate : Schema σ → Site → JSON → Outcome
  | always accept, _, _ => if accept then some [] else refused
  | keywords ks, site, inst => validateAll ks site inst
  | standard k below, site, inst =>
    lib.judge k inst <| (lib.parts k inst).mapIdx fun n part =>
      validateNth below part.1 (n :: site) part.2
  | compareProperties cmp, site, inst =>
    comparePropertiesValidate (draws (0 :: site)) (draws (1 :: site)) cmp inst
  | eventuallyRequired required, _, inst => eventuallyRequiredValidate required inst
  | disallowProperties disallowed, _, inst => disallowPropertiesValidate disallowed inst
  | checks compiled, site, inst => checksValidate (validateItems compiled site inst)
  | conditional test tested enforce, site, inst =>
    conditionalValidate test (validate tested (0 :: site) inst) (validate enforce (1 :: site) inst)
  | union defaultMessage items, site, inst =>
    unionValidate defaultMessage (validateItems items site inst) inst

def validateAll : List (Schema σ) → Site → JSON → Outcome
  | [], _, _ => some []
  | s :: rest, site, inst => both (validate s (0 :: site) inst) (validateAll rest (1 :: site) inst)

def validateNth : List (Schema σ) → ℕ → Site → JSON → Outcome
  | [], _, _, _ => some []
  | s :: _, 0, site, inst => validate s site inst
  | _ :: rest, n + 1, site, inst => validateNth rest n site inst

def validateItems : List (String × Schema σ) → Site → JSON → List (String × Outcome)
  | [], _, _ => []
  | (key, s) :: rest, site, inst =>
    (key, validate s (0 :: site) inst) :: validateItems rest (1 :: site) inst

end

/-! ### The client -/

mutual

def descend : Schema σ → JSON → Outcome
  | always accept, _ => if accept then some [] else refused
  | keywords ks, inst => descendAll ks inst
  | standard k below, inst =>
    lib.judge k inst <| (lib.parts k inst).map fun part => descendNth below part.1 part.2
  | compareProperties cmp, inst => Schemas.compareProperties cmp inst
  | eventuallyRequired required, inst => Schemas.eventuallyRequired required inst
  | disallowProperties disallowed, inst => Schemas.disallowProperties disallowed inst
  | checks compiled, inst => checksValidate (descendItems compiled inst)
  | conditional test tested enforce, inst =>
    Schemas.conditional test (descend tested inst) (descend enforce inst)
  | union defaultMessage items, inst =>
    Schemas.union defaultMessage (descendItems items inst) inst

def descendAll : List (Schema σ) → JSON → Outcome
  | [], _ => some []
  | s :: rest, inst => both (descend s inst) (descendAll rest inst)

def descendNth : List (Schema σ) → ℕ → JSON → Outcome
  | [], _, _ => some []
  | s :: _, 0, inst => descend s inst
  | _ :: rest, n + 1, inst => descendNth rest n inst

def descendItems : List (String × Schema σ) → JSON → List (String × Outcome)
  | [], _ => []
  | (key, s) :: rest, inst => (key, descend s inst) :: descendItems rest inst

end

end Schema

end Determined.Schemas
