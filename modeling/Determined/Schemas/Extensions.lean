import Determined.Schemas.JSON
import Determined.Schemas.Subdir

/-! The keywords that extend the schema language: `compareProperties`, `eventuallyRequired`,
    `disallowProperties`, `checks`, `conditional` and `union`, in the master
    (`pkg/schemas/extensions`) and in the client (`determined_common/schemas/extensions.py`).

    A validation lists its errors, or fails itself: by a panic that nobody recovers, or by an
    exception. A keyword with schemas below it is given what their validations come to. -/

namespace Determined.Schemas
open Determined.Schemes

/-- The messages of a validation, or `none` if the validator fails. -/
abbrev Outcome := Option (List String)

/-! ### Comparing properties -/

inductive CompareType where
  /-- `a<b` -/
  | less
  /-- `same_units` -/
  | sameUnits
  /-- `length_a<length_b` -/
  | lengthLess
  /-- `a_is_subdir_of_b` -/
  | subdir
  | unrecognized (name : String)
  deriving DecidableEq, Repr

structure CompareProperty where
  type : CompareType
  a : String
  b : String
  deriving DecidableEq, Repr

/-- The keys of a name like `a.b.c`. -/
def keys (name : String) : List String := (name.toList.splitOn '.').map String.ofList

/-- `none` is a panic, at a value that is no object. -/
def getProperty : List String → JSON → Option JSON
  | [], inst => some inst
  | key :: rest, .object members => getProperty rest (JSON.get members key)
  | _ :: _, _ => none

def getPropertyByPath (inst : JSON) (name : String) : Option JSON := getProperty (keys name) inst

/-- A map is read in any order; the draw says which member is read first. -/
def firstMember (draw : ℕ) (members : JSONObject) : Option (String × JSON) :=
  members[draw % members.length]?

def getLengthUnits (draw : ℕ) : JSON → Option String
  | .object members => (firstMember draw members).map Prod.fst
  | _ => none

def getLengthValue (draw : ℕ) : JSON → Option ℤ
  | .object members => (firstMember draw members).bind fun member => member.2.int64
  | _ => none

/-- The errors of a comparison in the master; `none` is a panic. -/
def compareValues (drawA drawB : ℕ) (cmp : CompareProperty) (a b : JSON) : Option (List String) :=
  match cmp.type with
  | .less => do
    let aNum ← a.float64
    let bNum ← b.float64
    return if aNum ≥ bNum then [cmp.a ++ " must be less than " ++ cmp.b] else []
  | .sameUnits => do
    let aUnit ← getLengthUnits drawA a
    let bUnit ← getLengthUnits drawB b
    return if aUnit ≠ bUnit then [cmp.a ++ " must use the same units as " ++ cmp.b] else []
  | .lengthLess => do
    let aLength ← getLengthValue drawA a
    let bLength ← getLengthValue drawB b
    return if aLength ≥ bLength then [cmp.a ++ " must be less than " ++ cmp.b] else []
  | .subdir => do
    let aPath ← a.text
    let bPath ← b.text
    return if isSubdir aPath bPath then [] else [cmp.a ++ " must be a subdirectory of " ++ cmp.b]
  | .unrecognized _ => return []

/-- A panic is recovered: what is not well-formed is left to other keywords. -/
def comparePropertiesValidate (drawA drawB : ℕ) (cmp : CompareProperty) (inst : JSON) : Outcome :=
  let compared := do
    let a ← getPropertyByPath inst cmp.a
    let b ← getPropertyByPath inst cmp.b
    compareValues drawA drawB cmp a b
  some (compared.getD [])

/-- The client looks no further below a value that is false; `none` is an exception. -/
def getByPath : List String → JSON → Option JSON
  | [], inst => some inst
  | key :: rest, inst =>
    if inst.truthy then
      match inst with
      | .object members => getByPath rest (JSON.get members key)
      | _ => none
    else some .null

/-- The errors of a comparison in the client; `none` is an exception. -/
def compareValuesPython (compare : CompareProperty) (a b : JSON) : Outcome :=
  match compare.type with
  | .less => do
    return if ← JSON.pyGe a b then [compare.a ++ " must be less than " ++ compare.b] else []
  | .sameUnits =>
    match a, b with
    | .object as, .object bs => do
      let aUnit ← as.head?
      let bUnit ← bs.head?
      return if aUnit.1 ≠ bUnit.1 then
        [compare.a ++ " must be defined in the same units as " ++ compare.b] else []
    | _, _ => return []
  | .lengthLess =>
    match a, b with
    | .object as, .object bs => do
      let lengthA ← as.head?
      let lengthB ← bs.head?
      match lengthA.2.pythonInt, lengthB.2.pythonInt with
      | some lengthA, some lengthB =>
        return if lengthA ≥ lengthB then [compare.a ++ " must be less than " ++ compare.b] else []
      | _, _ => return []
    | _, _ => return []
  | .subdir => do
    let aPath ← a.text
    let bPath ← b.text
    return if isSubdirPython aPath bPath then []
      else [compare.a ++ " must be a subdirectory of " ++ compare.b]
  | .unrecognized _ => none

def compareProperties (compare : CompareProperty) (inst : JSON) : Outcome :=
  match inst with
  | .object _ => do
    let a ← getByPath (keys compare.a) inst
    let b ← getByPath (keys compare.b) inst
    if a.isNull || b.isNull then return [] else compareValuesPython compare a b
  | _ => some []

/-! ### Required and disallowed properties -/

/-- A property that is null is required as one that is missing. -/
def eventuallyRequiredValidate (required : List String) : JSON → Outcome
  | .object members =>
    some <| (required.filter fun prop => (JSON.get members prop).isNull).map
      (· ++ " is a required property")
  | _ => some []

/-- Python's `in`; numbers, booleans and `None` hold nothing. -/
def JSON.holds (key : String) : JSON → Option Bool
  | .object members => some ((members.lookup key).isSome)
  | .array elements => some (elements.any fun x => x.text == some key.toList)
  | .string value => some (decide (key.toList <:+: value.toList))
  | _ => none

def eventuallyRequired : List String → JSON → Outcome
  | [], _ => some []
  | key :: required, inst => do
    let held ← inst.holds key
    let errors ← eventuallyRequired required inst
    return if held then errors else (key ++ " is a required property") :: errors

def disallowPropertiesValidate (disallowed : List (String × String)) : JSON → Outcome
  | .object members =>
    some <| (disallowed.filter fun prop => (members.lookup prop.1).isSome).map Prod.snd
  | _ => some []

def disallowProperties (disallowed : List (String × String)) : JSON → Outcome
  | .object members => some (members.filterMap fun prop => disallowed.lookup prop.1)
  | _ => some []

/-! ### Checks and conditions -/

/-- The message of a check stands for all errors of its schema, in both languages. -/
def checksValidate : List (String × Outcome) → Outcome
  | [] => some []
  | (msg, outcome) :: compiled => do
    let err ← outcome
    let errors ← checksValidate compiled
    return if err ≠ [] then msg :: errors else errors

/-- The clause that a condition tests; with both, it is the `when` clause. -/
inductive Test where
  | whenClause
  | unlessClause
  deriving DecidableEq, Repr

def Test.enforceAfterPass : Test → Bool
  | whenClause => true
  | unlessClause => false

/-- Despite its name, `passed` says that the test found errors. -/
def conditionalValidate (test : Test) (tested enforced : Outcome) : Outcome := do
  let err ← tested
  let passed := err ≠ []
  if test.enforceAfterPass = passed then return [] else enforced

def conditional (test : Test) (tested enforced : Outcome) : Outcome := do
  let errors ← tested
  match test with
  | .whenClause => if errors ≠ [] then return [] else enforced
  | .unlessClause => if errors = [] then return [] else enforced

/-! ### Unions -/

/-- The two parts of a text around the first separator, if there is one. -/
def splitOnce (sep : Char) : List Char → Option (List Char × List Char)
  | [] => none
  | c :: rest =>
    if c = sep then some ([], rest)
    else (splitOnce sep rest).map fun parts => (c :: parts.1, parts.2)

theorem splitOnce_eq_some_iff {sep : Char} {text before after : List Char} :
    splitOnce sep text = some (before, after) ↔ text = before ++ sep :: after ∧ sep ∉ before := by
  induction text generalizing before with
  | nil => simp [splitOnce]
  | cons c rest ih =>
    rw [splitOnce]
    cases before with
    | nil =>
      by_cases hc : c = sep
      · simp [hc]
      · simp [hc]
    | cons d before =>
      by_cases hc : c = sep
      · simp only [hc, if_true, Option.some.injEq, Prod.mk.injEq, List.nil_eq, List.cons_append,
          List.cons.injEq, List.mem_cons, not_or, reduceCtorEq, false_and, false_iff]
        rintro ⟨⟨rfl, -⟩, hne, -⟩
        exact hne rfl
      · simp only [hc, if_false, Option.map_eq_some_iff, Prod.exists, Prod.mk.injEq, List.cons.injEq,
          List.cons_append, List.mem_cons, not_or]
        constructor
        · rintro ⟨before, _, hsplit, ⟨rfl, rfl⟩, rfl⟩
          obtain ⟨rfl, hmem⟩ := ih.mp hsplit
          exact ⟨⟨rfl, rfl⟩, Ne.symm hc, hmem⟩
        · rintro ⟨⟨rfl, hrest⟩, -, hmem⟩
          exact ⟨before, after, ih.mpr ⟨hrest, hmem⟩, ⟨rfl, rfl⟩, rfl⟩

/-- What follows a prefix like `const:`. -/
def argument (kind key : List Char) : Option (List Char) :=
  if (kind ++ [':']).isPrefixOf key then some (key.drop (kind.length + 1)) else none

theorem argument_length {kind key arg : List Char} (h : argument kind key = some arg) :
    arg.length < key.length := by
  rw [argument] at h
  split at h
  · rename_i hprefix
    obtain ⟨rest, rfl⟩ := List.isPrefixOf_iff_prefix.mp hprefix
    cases h
    simp only [List.length_drop, List.length_append, List.length_singleton]
    omega
  · exact absurd h (by simp)

/-- `const:NAME=VALUE`: the instance has this value under this name. -/
def evaluateConst (inst : JSON) (arg : List Char) : Option Bool :=
  match splitOnce '=' arg with
  | none => none
  | some (name, value) =>
    match inst with
    | .object members => some ((JSON.get members (.ofList name)).text == some value)
    | _ => some false

/-- `singleproperty:ATTR`: the instance has this key only. -/
def evaluateSingleProperty (inst : JSON) (arg : List Char) : Bool :=
  match inst with
  | .object members => members.length = 1 ∧ (members.lookup (.ofList arg)).isSome
  | _ => false

/-- `type:TYPE`: the instance is an array or an object. -/
def evaluateType (inst : JSON) (arg : List Char) : Option Bool :=
  if arg = "array".toList then some inst.isArray
  else if arg = "object".toList then some inst.isObject
  else none

/-- `hasattr:ATTR`: the instance has this key. -/
def evaluateHasAttr (inst : JSON) (arg : List Char) : Bool :=
  match inst with
  | .object members => (members.lookup (.ofList arg)).isSome
  | _ => false

/-- The master looks for one prefix after another. -/
def evaluateUnionKey (inst : JSON) (key : List Char) : Option Bool :=
  if key = "always".toList then some true
  else if key = "never".toList then some false
  else match _ : argument "not".toList key with
  | some arg => (evaluateUnionKey inst arg).map not
  | none => match argument "const".toList key with
  | some arg => evaluateConst inst arg
  | none => match argument "singleproperty".toList key with
  | some arg => some (evaluateSingleProperty inst arg)
  | none => match argument "type".toList key with
  | some arg => evaluateType inst arg
  | none => (argument "hasattr".toList key).map (evaluateHasAttr inst)
termination_by key.length
decreasing_by exact argument_length ‹_›

/-- The client takes the key apart first. -/
def evaluateUnionKeyPython (inst : JSON) (key : List Char) : Option Bool :=
  if key = "always".toList then some true
  else if key = "never".toList then some false
  else match _ : splitOnce ':' key with
  | none => none
  | some (kind, arg) =>
    if kind = "not".toList then (evaluateUnionKeyPython inst arg).map not
    else if kind = "const".toList then evaluateConst inst arg
    else if kind = "singleproperty".toList then some (evaluateSingleProperty inst arg)
    else if kind = "type".toList then evaluateType inst arg
    else if kind = "hasattr".toList then some (evaluateHasAttr inst arg)
    else none
termination_by key.length
decreasing_by
  rename_i hsplit _
  rw [(splitOnce_eq_some_iff.mp hsplit).1, List.length_append, List.length_cons]
  omega

/-- The errors to show and the number of items that match, after some items. -/
structure Selection where
  selected : List String
  valid : ℕ
  deriving DecidableEq, Repr

/-- The errors of the first item whose key holds are kept. -/
def selectItem (evaluate : List Char → Option Bool) (s : Selection) (item : String × Outcome) :
    Option Selection := do
  let err ← item.2
  if err = [] then return { s with valid := s.valid + 1 }
  else if s.selected = [] then
    return if ← evaluate item.1.toList then { s with selected := err } else s
  else return s

/-- The union of both languages, given how they evaluate a key. -/
def selectErrors (evaluate : List Char → Option Bool) (message : String)
    (items : List (String × Outcome)) : Outcome := do
  let s ← items.foldlM (selectItem evaluate) ⟨[], 0⟩
  if s.valid = 1 then return []
  else if s.valid > 1 then return ["bug in validation! Multiple schemas matched"]
  else return if s.selected = [] then [message] else s.selected

/-- The message of a union that has no default message. -/
def unionMessage (defaultMessage : Option String) : String :=
  defaultMessage.getD "union failed to validate"

def unionValidate (defaultMessage : Option String) (items : List (String × Outcome))
    (inst : JSON) : Outcome :=
  selectErrors (evaluateUnionKey inst) (unionMessage defaultMessage) items

def union (defaultMessage : Option String) (items : List (String × Outcome)) (inst : JSON) :
    Outcome :=
  selectErrors (evaluateUnionKeyPython inst) (unionMessage defaultMessage) items

end Determined.Schemas
