import Determined.Schemas.Extensions

/-! The keywords of the schemas come to the same in the master and in the client
    (`pkg/schemas/extensions`, `determined_common/schemas/extensions.py`), but for two of them:
    `eventuallyRequired` and `compareProperties` treat nulls, values of other types, large numbers,
    lengths with several units and paths with two slashes at the front differently. -/

namespace Determined.Schemas
open Determined.Schemes

/-- Both fail, both accept or both reject; the messages may differ. -/
inductive Alike : Outcome → Outcome → Prop
  | failed : Alike none none
  | accepted : Alike (some []) (some [])
  | rejected {e e' : String} {es es' : List String} : Alike (some (e :: es)) (some (e' :: es'))

namespace Alike

theorem refl (o : Outcome) : Alike o o := by
  rcases o with _ | _ | ⟨e, es⟩
  exacts [failed, accepted, rejected]

theorem accepts_iff {o o' : Outcome} (h : Alike o o') : o = some [] ↔ o' = some [] := by
  cases h <;> simp

end Alike

/-! ### Required properties -/

/-- Where a required property is null, another one is missing; what is no object holds every
    required name, as a part of a text or as an element. -/
def RequiredAlike (required : List String) : JSON → Prop
  | .object members => (∀ key ∈ required, (members.lookup key).isSome) →
      ∀ key ∈ required, (JSON.get members key).isNull = false
  | inst => ∀ key ∈ required, inst.holds key = some true

theorem eventuallyRequired_object (required : List String) (members : JSONObject) :
    eventuallyRequired required (.object members) =
      some ((required.filter fun key => !(members.lookup key).isSome).map
        (· ++ " is a required property")) := by
  induction required with
  | nil => rfl
  | cons key required ih =>
    rw [eventuallyRequired, ih, JSON.holds, List.filter_cons]
    cases members.lookup key <;> rfl

theorem eventuallyRequired_eq_nil_iff (required : List String) (inst : JSON) :
    eventuallyRequired required inst = some [] ↔
      ∀ key ∈ required, inst.holds key = some true := by
  induction required with
  | nil => simp [eventuallyRequired]
  | cons key required ih =>
    rw [List.forall_mem_cons, ← ih, eventuallyRequired]
    rcases inst.holds key with _ | _ | _
    · simp
    · rcases eventuallyRequired required inst with _ | errors <;> simp
    · rcases eventuallyRequired required inst with _ | errors <;> simp

theorem eventuallyRequiredValidate_eq_nil_iff (required : List String) (members : JSONObject) :
    eventuallyRequiredValidate required (.object members) = some [] ↔
      ∀ key ∈ required, (JSON.get members key).isNull = false := by
  simp [eventuallyRequiredValidate]

theorem isNull_get {members : JSONObject} {key : String} (h : (JSON.get members key).isNull = false) :
    (members.lookup key).isSome = true := by
  rw [JSON.get] at h
  cases hlookup : members.lookup key with
  | none => rw [hlookup] at h; exact absurd h (by decide)
  | some v => rfl

/-- The master and the client agree on the required properties exactly in these cases. -/
theorem required_agrees_iff (required : List String) (inst : JSON) :
    (eventuallyRequiredValidate required inst = some [] ↔
      eventuallyRequired required inst = some []) ↔ RequiredAlike required inst := by
  rw [eventuallyRequired_eq_nil_iff]
  cases inst with
  | object members =>
    rw [eventuallyRequiredValidate_eq_nil_iff]
    simp only [JSON.holds, Option.some.injEq, RequiredAlike]
    constructor
    · exact fun h => h.mpr
    · exact fun h => ⟨fun hvalues key hkey => isNull_get (hvalues key hkey), h⟩
  | null => simp [eventuallyRequiredValidate, RequiredAlike]
  | bool => simp [eventuallyRequiredValidate, RequiredAlike]
  | number => simp [eventuallyRequiredValidate, RequiredAlike]
  | string => simp [eventuallyRequiredValidate, RequiredAlike]
  | array => simp [eventuallyRequiredValidate, RequiredAlike]

/-- Neither fails where they agree. -/
theorem required_alike {required : List String} {inst : JSON} (h : RequiredAlike required inst) :
    Alike (eventuallyRequiredValidate required inst) (eventuallyRequired required inst) := by
  have hagree := (required_agrees_iff required inst).mpr h
  rcases hgo : eventuallyRequiredValidate required inst with _ | _ | ⟨e, es⟩
  · cases inst <;> simp [eventuallyRequiredValidate] at hgo
  · rw [hagree.mp hgo]
    exact .accepted
  · cases inst with
    | object members =>
      rw [hgo, eventuallyRequired_object] at hagree
      rw [eventuallyRequired_object]
      generalize (required.filter _).map _ = errors at hagree ⊢
      cases errors with
      | nil => exact absurd (hagree.mpr rfl) (by simp)
      | cons => exact .rejected
    | null => simp [eventuallyRequiredValidate] at hgo
    | bool => simp [eventuallyRequiredValidate] at hgo
    | number => simp [eventuallyRequiredValidate] at hgo
    | string => simp [eventuallyRequiredValidate] at hgo
    | array => simp [eventuallyRequiredValidate] at hgo

/-! ### Compared values -/

/-- The master compares the numbers rounded, and not at all where one is too large; the client
    compares integers as they are. -/
def NumbersAlike (m n : Number) : Prop :=
  (∃ x y, m.float64 = some x ∧ n.float64 = some y ∧ y ≤ x) ↔ n.python ≤ m.python

/-- Integers below `2 ^ 53` are the same numbers to both. -/
theorem numbersAlike_of_small {y z : ℤ} (hy : |y| < 2 ^ 53) (hz : |z| < 2 ^ 53) :
    NumbersAlike (.int y) (.int z) := by
  simp only [NumbersAlike, Number.float64, Number.literal, Number.python, binary64_intCast hy,
    binary64_intCast hz, WithBot.coe_le_coe, WithTop.coe_le_coe]
  constructor
  · rintro ⟨_, _, ⟨⟩, ⟨⟩, hle⟩
    exact hle
  · exact fun hle => ⟨_, _, rfl, rfl, hle⟩

/-- Both have members, and whichever are read first decide like the ones that are written first. -/
def FirstAlike (master client : String × JSON → String × JSON → Prop) (as bs : JSONObject) : Prop :=
  ∃ a b, as.head? = some a ∧ bs.head? = some b ∧ ∀ x ∈ as, ∀ y ∈ bs, (master x y ↔ client a b)

/-- The first length is not below the second; only what is an integer is compared. -/
def LengthGe (int : JSON → Option ℤ) (x y : String × JSON) : Prop :=
  ∃ m n, int x.2 = some m ∧ int y.2 = some n ∧ n ≤ m

/-- What is no number is not compared by the master; the client may still find it in order. -/
def LessAlike : JSON → JSON → Prop
  | .number m, .number n => NumbersAlike m n
  | a, b => JSON.pyGe a b = some false

/-- What is no object is not compared by either. -/
def ObjectsAlike (alike : JSONObject → JSONObject → Prop) : JSON → JSON → Prop
  | .object as, .object bs => alike as bs
  | _, _ => True

/-- What is no text is not compared by the master, and an error for the client. -/
def PathsAlike (a b : JSON) : Prop :=
  ∃ p q, a.text = some p ∧ b.text = some q ∧ SlashesAlike p q

/-- When the two languages decide alike on two values that are compared. -/
def ValuesAlike : CompareType → JSON → JSON → Prop
  | .less => LessAlike
  | .sameUnits => ObjectsAlike (FirstAlike (·.1 ≠ ·.1) (·.1 ≠ ·.1))
  | .lengthLess => ObjectsAlike (FirstAlike (LengthGe JSON.int64) (LengthGe JSON.pythonInt))
  | .subdir => PathsAlike
  | .unrecognized _ => fun _ _ => False

theorem firstMember_mem {draw : ℕ} {members : JSONObject} {x : String × JSON}
    (h : firstMember draw members = some x) : x ∈ members :=
  List.mem_of_getElem? h

/-- Any member may be read first. -/
theorem exists_firstMember {members : JSONObject} {x : String × JSON} (h : x ∈ members) :
    ∃ draw, firstMember draw members = some x := by
  obtain ⟨n, hn, hx⟩ := List.mem_iff_getElem.mp h
  exact ⟨n, by rw [firstMember, Nat.mod_eq_of_lt hn, List.getElem?_eq_getElem hn, hx]⟩

theorem firstMember_cons (draw : ℕ) (x : String × JSON) (members : JSONObject) :
    ∃ y ∈ x :: members, firstMember draw (x :: members) = some y := by
  have hlt : draw % (x :: members).length < (x :: members).length :=
    Nat.mod_lt _ (Nat.succ_pos _)
  exact ⟨_, List.getElem_mem hlt, List.getElem?_eq_getElem hlt⟩

/-- A comparison that is made has an error exactly if it holds. -/
theorem compared_eq_nil_iff {α : Type} (oa ob : Option α) (p : α → α → Prop) [DecidableRel p]
    (msg : String) :
    (do let x ← oa; let y ← ob; return if p x y then [msg] else [] :
      Option (List String)).getD [] = [] ↔ ¬ ∃ x y, oa = some x ∧ ob = some y ∧ p x y := by
  rcases oa with _ | x
  · simp
  rcases ob with _ | y
  · simp
  by_cases h : p x y <;> simp [h]

variable {as bs : JSONObject} {master client : String × JSON → String × JSON → Prop}

/-- Every order of the maps is possible, so the master agrees with the client in all of them only
    if all members decide alike. -/
theorem firstAlike_iff {goOk : ℕ → ℕ → Prop} {pyOk : Prop}
    (hgo : ∀ dA dB, goOk dA dB ↔
      ¬ ∃ x y, firstMember dA as = some x ∧ firstMember dB bs = some y ∧ master x y)
    (hpy : pyOk ↔ ∃ a b, as.head? = some a ∧ bs.head? = some b ∧ ¬ client a b) :
    (∀ dA dB, (goOk dA dB ↔ pyOk)) ↔ FirstAlike master client as bs := by
  have hnone : as = [] ∨ bs = [] →
      ((∀ dA dB, (goOk dA dB ↔ pyOk)) ↔ FirstAlike master client as bs) := by
    intro hempty
    have hpyNot : ¬ pyOk := by
      rw [hpy]
      rintro ⟨a, b, ha, hb, -⟩
      rcases hempty with rfl | rfl
      · cases ha
      · cases hb
    have hgoAll : goOk 0 0 := by
      rw [hgo]
      rintro ⟨x, y, hx, hy, -⟩
      rcases hempty with rfl | rfl
      · cases hx
      · cases hy
    refine iff_of_false (fun h => hpyNot ((h 0 0).mp hgoAll)) ?_
    rintro ⟨a, b, ha, hb, -⟩
    rcases hempty with rfl | rfl
    · cases ha
    · cases hb
  rcases as with _ | ⟨a, as⟩
  · exact hnone (.inl rfl)
  rcases bs with _ | ⟨b, bs⟩
  · exact hnone (.inr rfl)
  have hpy' : pyOk ↔ ¬ client a b := by simpa using hpy
  constructor
  · intro h
    refine ⟨a, b, rfl, rfl, fun x hx y hy => ?_⟩
    obtain ⟨dA, hdA⟩ := exists_firstMember hx
    obtain ⟨dB, hdB⟩ := exists_firstMember hy
    have hxy := (hgo dA dB).symm.trans ((h dA dB).trans hpy')
    simp only [hdA, hdB, Option.some.injEq] at hxy
    refine not_iff_not.mp (Iff.trans ?_ hxy)
    simp
  · rintro ⟨_, _, ⟨⟩, ⟨⟩, hall⟩ dA dB
    obtain ⟨x, hx, hdA⟩ := firstMember_cons dA a as
    obtain ⟨y, hy, hdB⟩ := firstMember_cons dB b bs
    rw [hgo, hpy', ← hall x hx y hy]
    simp [hdA, hdB]

/-- A comparison of the client that finds no error. -/
theorem pythonCompared_eq_nil_iff {α : Type} (oa ob : Option α) (p : α → α → Prop)
    [DecidableRel p] (msg : String) :
    (do let x ← oa; let y ← ob; return if p x y then [msg] else [] : Outcome) = some [] ↔
      ∃ x y, oa = some x ∧ ob = some y ∧ ¬ p x y := by
  rcases oa with _ | x
  · simp
  rcases ob with _ | y
  · simp
  by_cases h : p x y <;> simp [h]

theorem not_all_agree {goOk : ℕ → ℕ → Prop} {pyOk : Prop} (hgo : goOk 0 0) (hpy : ¬ pyOk) :
    ¬ ∀ dA dB, (goOk dA dB ↔ pyOk) :=
  fun h => hpy ((h 0 0).mp hgo)

theorem less_agrees_iff (nameA nameB : String) (a b : JSON) :
    (∀ dA dB, ((compareValues dA dB ⟨.less, nameA, nameB⟩ a b).getD [] = [] ↔
      compareValuesPython ⟨.less, nameA, nameB⟩ a b = some [])) ↔ LessAlike a b := by
  simp only [compareValues, compareValuesPython, compared_eq_nil_iff, forall_const]
  have hpython : (do return if ← JSON.pyGe a b then
      [nameA ++ " must be less than " ++ nameB] else [] : Outcome) = some [] ↔
        JSON.pyGe a b = some false := by
    rcases JSON.pyGe a b with _ | _ | _ <;> simp
  rw [hpython]
  unfold LessAlike
  split
  · rename_i m n
    have hge : JSON.pyGe (.number m) (.number n) = some (decide (n.python ≤ m.python)) := by
      simp [JSON.pyGe, JSON.pythonNumber]
    rw [hge, Option.some.injEq, decide_eq_false_iff_not]
    exact not_iff_not
  · rename_i hnumbers
    have hgo : ¬ ∃ x y, a.float64 = some x ∧ b.float64 = some y ∧ x ≥ y := by
      rintro ⟨x, y, hx, hy, -⟩
      cases a with
      | number m =>
        cases b with
        | number n => exact hnumbers m n rfl rfl
        | _ => cases hy
      | _ => cases hx
    simp only [hgo, not_false_eq_true, true_iff]

theorem objectsAlike_of_not {alike : JSONObject → JSONObject → Prop} {a b : JSON}
    (h : ∀ as bs, a = .object as → b = .object bs → False) : ObjectsAlike alike a b := by
  unfold ObjectsAlike
  split
  · exact absurd rfl fun ha => h _ _ ha rfl
  · trivial

/-- The comparisons of the first members of two objects. -/
theorem members_agree_iff {α : Type} {read : ℕ → JSON → Option α}
    (value : String × JSON → Option α) {p : α → α → Prop} [DecidableRel p] (msg : String)
    {python : JSON → JSON → Outcome}
    (hread : ∀ draw members, read draw (.object members) = (firstMember draw members).bind value)
    (hnone : ∀ draw inst, inst.isObject = false → read draw inst = none)
    (hpython : ∀ as bs, python (.object as) (.object bs) = some [] ↔
      ∃ a b, as.head? = some a ∧ bs.head? = some b ∧ ¬ client a b)
    (haccepts : ∀ a b, (∀ as bs, a = .object as → b = .object bs → False) → python a b = some [])
    (hmaster : ∀ x y, master x y ↔ ∃ m n, value x = some m ∧ value y = some n ∧ p m n)
    (a b : JSON) :
    (∀ dA dB, ((do let x ← read dA a; let y ← read dB b; return if p x y then [msg] else [] :
      Option (List String)).getD [] = [] ↔ python a b = some [])) ↔
        ObjectsAlike (FirstAlike master client) a b := by
  simp only [compared_eq_nil_iff]
  by_cases hobjects : ∀ as bs, a = .object as → b = .object bs → False
  · refine iff_of_true (fun dA dB => ?_) (objectsAlike_of_not hobjects)
    refine iff_of_true ?_ (haccepts a b hobjects)
    rintro ⟨x, y, hx, hy, -⟩
    cases a with
    | object as =>
      cases b with
      | object bs => exact hobjects as bs rfl rfl
      | _ => rw [hnone _ _ rfl] at hy; cases hy
    | _ => rw [hnone _ _ rfl] at hx; cases hx
  · push Not at hobjects
    obtain ⟨as, bs, rfl, rfl, -⟩ := hobjects
    refine firstAlike_iff (fun dA dB => not_congr ?_) (hpython as bs)
    simp only [hread, hmaster, Option.bind_eq_some_iff]
    constructor
    · rintro ⟨m, n, ⟨x, hx, hm⟩, ⟨y, hy, hn⟩, hp⟩
      exact ⟨x, y, hx, hy, m, n, hm, hn, hp⟩
    · rintro ⟨x, y, hx, hy, m, n, hm, hn, hp⟩
      exact ⟨m, n, ⟨x, hx, hm⟩, ⟨y, hy, hn⟩, hp⟩

theorem units_agree_iff (nameA nameB : String) (a b : JSON) :
    (∀ dA dB, ((compareValues dA dB ⟨.sameUnits, nameA, nameB⟩ a b).getD [] = [] ↔
      compareValuesPython ⟨.sameUnits, nameA, nameB⟩ a b = some [])) ↔
        ObjectsAlike (FirstAlike (·.1 ≠ ·.1) (·.1 ≠ ·.1)) a b := by
  refine members_agree_iff (fun x => some x.1) _ (fun draw members => ?_)
    (fun draw inst h => ?_) (fun as bs => pythonCompared_eq_nil_iff ..) (fun a b h => ?_)
    (fun x y => by simp) a b
  · exact Option.map_eq_bind
  · cases inst <;> first | rfl | cases h
  · rw [compareValuesPython]
    exacts [rfl, h]

theorem lengths_agree_iff (nameA nameB : String) (a b : JSON) :
    (∀ dA dB, ((compareValues dA dB ⟨.lengthLess, nameA, nameB⟩ a b).getD [] = [] ↔
      compareValuesPython ⟨.lengthLess, nameA, nameB⟩ a b = some [])) ↔
        ObjectsAlike (FirstAlike (LengthGe JSON.int64) (LengthGe JSON.pythonInt)) a b := by
  refine members_agree_iff (fun x => x.2.int64) _ (fun draw members => rfl)
    (fun draw inst h => ?_) (fun as bs => ?_) (fun a b h => ?_)
    (fun x y => by rfl) a b
  · cases inst <;> first | rfl | cases h
  · rw [compareValuesPython]
    rcases as with _ | ⟨a, as⟩
    · simp
    rcases bs with _ | ⟨b, bs⟩
    · simp
    simp only [List.head?_cons, Option.bind_eq_bind, Option.bind_some, LengthGe]
    cases hm : a.2.pythonInt with
    | none => simp [hm]
    | some m =>
      cases hn : b.2.pythonInt with
      | none => simp [hn]
      | some n => simp [hm, hn]
  · rw [compareValuesPython]
    exacts [rfl, h]

theorem paths_agree_iff (nameA nameB : String) (a b : JSON) :
    (∀ dA dB, ((compareValues dA dB ⟨.subdir, nameA, nameB⟩ a b).getD [] = [] ↔
      compareValuesPython ⟨.subdir, nameA, nameB⟩ a b = some [])) ↔ PathsAlike a b := by
  simp only [compareValues, compareValuesPython, PathsAlike, forall_const]
  rcases a.text with _ | p
  · simp
  rcases b.text with _ | q
  · simp
  have hagree := isSubdir_agrees_iff p q
  cases hgo : isSubdir p q <;> cases hpy : isSubdirPython p q <;> simp_all

/-- The two languages agree on two values exactly in these cases. -/
theorem values_agree_iff (cmp : CompareProperty) (a b : JSON) :
    (∀ dA dB, ((compareValues dA dB cmp a b).getD [] = [] ↔
      compareValuesPython cmp a b = some [])) ↔ ValuesAlike cmp.type a b := by
  obtain ⟨type, nameA, nameB⟩ := cmp
  cases type with
  | less => exact less_agrees_iff nameA nameB a b
  | sameUnits => exact units_agree_iff nameA nameB a b
  | lengthLess => exact lengths_agree_iff nameA nameB a b
  | subdir => exact paths_agree_iff nameA nameB a b
  | unrecognized name => simp [compareValues, compareValuesPython, ValuesAlike]

/-! ### Compared properties -/

/-- The client finds both properties, and decides like the master where neither is missing or
    null. -/
def ComparedAlike (cmp : CompareProperty) : JSON → Prop
  | .object members => ∃ a b, getByPath (keys cmp.a) (.object members) = some a ∧
      getByPath (keys cmp.b) (.object members) = some b ∧
      (a.isNull = true ∨ b.isNull = true ∨ ValuesAlike cmp.type a b)
  | _ => True

/-- Where the client fails, the master does, too; where it finds a value, so does the master, or it
    finds none or null where the client has null. -/
theorem getByPath_spec (ks : List String) (inst : JSON) :
    (getByPath ks inst = none → getProperty ks inst = none) ∧
      ∀ v, getByPath ks inst = some v →
        getProperty ks inst = some v ∨ v = .null ∧ (getProperty ks inst).getD .null = .null := by
  induction ks generalizing inst with
  | nil => simp [getByPath, getProperty]
  | cons key rest ih =>
    cases inst with
    | object members =>
      rw [getByPath, getProperty]
      cases members with
      | nil =>
        -- An empty object is false; below it, the master finds null only.
        have hget : JSON.get [] key = .null := rfl
        simp only [JSON.truthy, List.isEmpty_nil, Bool.not_true, Bool.false_eq_true, if_false,
          reduceCtorEq, false_implies, Option.some.injEq, true_and, forall_eq', hget]
        cases rest <;> simp [getProperty]
      | cons m ms =>
        simp only [JSON.truthy, List.isEmpty_cons, Bool.not_false, if_true]
        exact ih _
    | null => simp [getByPath, getProperty, JSON.truthy]
    | bool b => simp [getByPath, getProperty]
    | number n => simp [getByPath, getProperty]
    | string t => simp [getByPath, getProperty]
    | array xs => simp [getByPath, getProperty]

/-- The master accepts a comparison with null. -/
theorem compareValues_null (dA dB : ℕ) (cmp : CompareProperty) {a b : JSON}
    (h : a = .null ∨ b = .null) : (compareValues dA dB cmp a b).getD [] = [] := by
  obtain ⟨type, nameA, nameB⟩ := cmp
  cases type with
  | less =>
    rw [compareValues, compared_eq_nil_iff]
    rintro ⟨x, y, hx, hy, -⟩
    rcases h with rfl | rfl
    · cases hx
    · cases hy
  | sameUnits =>
    rw [compareValues, compared_eq_nil_iff]
    rintro ⟨x, y, hx, hy, -⟩
    rcases h with rfl | rfl
    · cases hx
    · cases hy
  | lengthLess =>
    rw [compareValues, compared_eq_nil_iff]
    rintro ⟨x, y, hx, hy, -⟩
    rcases h with rfl | rfl
    · cases hx
    · cases hy
  | subdir =>
    rcases h with rfl | rfl
    · rfl
    · simp [compareValues, JSON.text]
  | unrecognized name => rfl

theorem eq_null_of_isNull {inst : JSON} (h : inst.isNull = true) : inst = .null := by
  cases inst <;> first | rfl | cases h

theorem keys_ne_nil (name : String) : keys name ≠ [] := by
  rw [keys, Ne, List.map_eq_nil_iff]
  exact List.splitOn_ne_nil _ _

/-- There are no properties below what is no object. -/
theorem getPropertyByPath_of_not {inst : JSON} (h : inst.isObject = false) (name : String) :
    getPropertyByPath inst name = none := by
  obtain ⟨key, rest, hkeys⟩ := List.exists_cons_of_ne_nil (keys_ne_nil name)
  rw [getPropertyByPath, hkeys]
  cases inst <;> first | rfl | cases h

/-- The master accepts a comparison with what is missing. -/
theorem compared_missing {oa ob : Option JSON} (dA dB : ℕ) (cmp : CompareProperty)
    (h : oa.getD .null = .null ∨ ob.getD .null = .null) :
    (do let a ← oa; let b ← ob; compareValues dA dB cmp a b : Option (List String)).getD [] = [] := by
  rcases oa with _ | a
  · rfl
  rcases ob with _ | b
  · rfl
  exact compareValues_null dA dB cmp h

/-- The master and the client agree on a comparison exactly in these cases. -/
theorem compared_agrees_iff (cmp : CompareProperty) (inst : JSON) :
    (∀ dA dB, (comparePropertiesValidate dA dB cmp inst = some [] ↔
      compareProperties cmp inst = some [])) ↔ ComparedAlike cmp inst := by
  by_cases hobject : inst.isObject = true
  · cases inst with
    | object members =>
      obtain ⟨hfailsA, hfindsA⟩ := getByPath_spec (keys cmp.a) (.object members)
      obtain ⟨hfailsB, hfindsB⟩ := getByPath_spec (keys cmp.b) (.object members)
      simp only [comparePropertiesValidate, compareProperties, ComparedAlike, getPropertyByPath,
        Option.some.injEq]
      cases ha : getByPath (keys cmp.a) (.object members) with
      | none => simp [hfailsA ha]
      | some a =>
        cases hb : getByPath (keys cmp.b) (.object members) with
        | none => simp [hfailsB hb]
        | some b =>
          have hnull : a = .null ∨ b = .null → ((∀ dA dB,
              ((do let a ← getProperty (keys cmp.a) (.object members)
                   let b ← getProperty (keys cmp.b) (.object members)
                   compareValues dA dB cmp a b : Option (List String)).getD [] = [])) ∧
              (a.isNull = true ∨ b.isNull = true)) := by
            rintro (rfl | rfl)
            · refine ⟨fun dA dB => compared_missing dA dB cmp (.inl ?_), .inl rfl⟩
              rcases hfindsA _ ha with h | h
              exacts [by rw [h]; rfl, h.2]
            · refine ⟨fun dA dB => compared_missing dA dB cmp (.inr ?_), .inr rfl⟩
              rcases hfindsB _ hb with h | h
              exacts [by rw [h]; rfl, h.2]
          by_cases hsome : a = .null ∨ b = .null
          · obtain ⟨hgo, hisNull⟩ := hnull hsome
            simp only [Option.some.injEq]
            refine iff_of_true (fun dA dB => iff_of_true (hgo dA dB) ?_)
              ⟨a, b, rfl, rfl, hisNull.imp_right .inl⟩
            simp [hisNull]
          · push Not at hsome
            have hA := (hfindsA _ ha).resolve_right fun h => hsome.1 h.1
            have hB := (hfindsB _ hb).resolve_right fun h => hsome.2 h.1
            have hnA : a.isNull = false := by
              cases h : a.isNull
              exacts [rfl, absurd (eq_null_of_isNull h) hsome.1]
            have hnB : b.isNull = false := by
              cases h : b.isNull
              exacts [rfl, absurd (eq_null_of_isNull h) hsome.2]
            simpa [hA, hB, hnA, hnB] using values_agree_iff cmp a b
    | _ => cases hobject
  · rw [Bool.not_eq_true] at hobject
    have hgo := getPropertyByPath_of_not hobject
    cases inst with
    | object members => cases hobject
    | _ => simp [comparePropertiesValidate, compareProperties, ComparedAlike, hgo]

/-- The client does not fail where the languages agree. -/
theorem ValuesAlike.ne_none {cmp : CompareProperty} {a b : JSON} (h : ValuesAlike cmp.type a b) :
    compareValuesPython cmp a b ≠ none := by
  obtain ⟨type, nameA, nameB⟩ := cmp
  cases type with
  | less =>
    have hge : JSON.pyGe a b ≠ none := by
      simp only [ValuesAlike] at h
      unfold LessAlike at h
      split at h
      · simp [JSON.pyGe, JSON.pythonNumber]
      · rw [h]
        exact Option.some_ne_none _
    obtain ⟨ge, hpython⟩ := Option.ne_none_iff_exists'.mp hge
    simp [compareValuesPython, hpython]
  | sameUnits =>
    simp only [ValuesAlike] at h
    unfold ObjectsAlike at h
    split at h
    · obtain ⟨x, y, hx, hy, -⟩ := h
      simp [compareValuesPython, hx, hy]
    · rename_i hnot
      rw [compareValuesPython]
      exacts [Option.some_ne_none _, hnot]
  | lengthLess =>
    simp only [ValuesAlike] at h
    unfold ObjectsAlike at h
    split at h
    · obtain ⟨x, y, hx, hy, -⟩ := h
      rw [compareValuesPython, hx, hy]
      simp only [Option.bind_eq_bind, Option.bind_some]
      split <;> exact Option.some_ne_none _
    · rename_i hnot
      rw [compareValuesPython]
      exacts [Option.some_ne_none _, hnot]
  | subdir =>
    obtain ⟨p, q, hp, hq, -⟩ := h
    simp [compareValuesPython, hp, hq]
  | unrecognized name => cases h

/-- Neither fails where they agree. -/
theorem compared_alike {cmp : CompareProperty} {inst : JSON} (h : ComparedAlike cmp inst)
    (dA dB : ℕ) : Alike (comparePropertiesValidate dA dB cmp inst) (compareProperties cmp inst) := by
  have hagree := (compared_agrees_iff cmp inst).mpr h dA dB
  have hpython : compareProperties cmp inst ≠ none := by
    cases inst with
    | object members =>
      obtain ⟨a, b, ha, hb, hvalues⟩ := h
      simp only [compareProperties, ha, hb, Option.bind_eq_bind, Option.bind_some]
      split
      · exact Option.some_ne_none _
      · rename_i hnull
        rcases hvalues with hn | hn | hvalues
        · simp [hn] at hnull
        · simp [hn] at hnull
        · exact hvalues.ne_none
    | _ => exact Option.some_ne_none _
  rcases hpy : compareProperties cmp inst with _ | _ | ⟨e, es⟩
  · exact absurd hpy hpython
  · rw [hagree.mpr hpy]
    exact .accepted
  · rcases hgo : comparePropertiesValidate dA dB cmp inst with _ | _ | ⟨e', es'⟩
    · exact absurd hgo (Option.some_ne_none _)
    · rw [hagree.mp hgo] at hpy
      cases hpy
    · exact .rejected

/-! ### The other keywords -/

theorem alike_of_iff {errors errors' : List String} (h : errors = [] ↔ errors' = []) :
    Alike (some errors) (some errors') := by
  rcases errors with _ | ⟨e, es⟩
  · rw [h.mp rfl]
    exact .accepted
  · rcases errors' with _ | ⟨e', es'⟩
    · exact absurd (h.mpr rfl) (List.cons_ne_nil _ _)
    · exact .rejected

theorem disallowed_alike (disallowed : List (String × String)) (inst : JSON) :
    Alike (disallowPropertiesValidate disallowed inst) (disallowProperties disallowed inst) := by
  cases inst with
  | object members =>
    refine alike_of_iff ?_
    simp only [List.map_eq_nil_iff, List.filter_eq_nil_iff, List.filterMap_eq_nil_iff,
      Bool.not_eq_true, Option.isSome_eq_false_iff, Option.isNone_iff_eq_none,
      List.lookup_eq_none_iff, bne_iff_ne]
    exact ⟨fun h x hx d hd => (h d hd x hx).symm, fun h d hd x hx => (h x hx d hd).symm⟩
  | _ => exact .accepted

/-- The outcomes under the keys of a map or an array. -/
abbrev ItemsAlike : List (String × Outcome) → List (String × Outcome) → Prop :=
  List.Forall₂ fun x y => x.1 = y.1 ∧ Alike x.2 y.2

theorem checks_alike {items items' : List (String × Outcome)} (h : ItemsAlike items items') :
    Alike (checksValidate items) (checksValidate items') := by
  induction h with
  | nil => exact .accepted
  | @cons x y _ _ hxy _ ih =>
    obtain ⟨msg, o⟩ := x
    obtain ⟨msg', o'⟩ := y
    obtain ⟨rfl, ho⟩ := hxy
    rw [checksValidate, checksValidate]
    generalize checksValidate _ = rest at ih ⊢
    generalize checksValidate _ = rest' at ih ⊢
    cases ho <;> cases ih <;> constructor

/-- The clause that is enforced matters only where the test leads to it. -/
def Test.leads (test : Test) (tested : Outcome) : Bool :=
  match tested with
  | some err => test.enforceAfterPass ≠ (err ≠ [] : Bool)
  | none => false

theorem conditional_alike (test : Test) {tested tested' enforced enforced' : Outcome}
    (htested : Alike tested tested')
    (henforced : test.leads tested = true → Alike enforced enforced') :
    Alike (conditionalValidate test tested enforced) (conditional test tested' enforced') := by
  cases htested with
  | failed => exact .failed
  | accepted =>
    cases test with
    | whenClause => exact henforced rfl
    | unlessClause => exact .accepted
  | rejected =>
    cases test with
    | whenClause => exact .accepted
    | unlessClause => exact henforced rfl

theorem argument_eq_some_iff {kind key arg : List Char} :
    argument kind key = some arg ↔ key = kind ++ ':' :: arg := by
  rw [argument]
  constructor
  · intro h
    split at h
    · rename_i hprefix
      obtain ⟨rest, rfl⟩ := List.isPrefixOf_iff_prefix.mp hprefix
      cases h
      simp
    · cases h
  · rintro rfl
    simp [List.isPrefixOf_iff_prefix]

/-- A prefix is found exactly where it is what stands before the first colon. -/
theorem argument_eq {kind : List Char} (hkind : ':' ∉ kind) (key : List Char) :
    argument kind key =
      (splitOnce ':' key).bind fun parts => if parts.1 = kind then some parts.2 else none := by
  ext arg
  rw [argument_eq_some_iff, Option.bind_eq_some_iff]
  constructor
  · intro h
    exact ⟨(kind, arg), splitOnce_eq_some_iff.mpr ⟨h, hkind⟩, if_pos rfl⟩
  · rintro ⟨⟨before, after⟩, hsplit, harg⟩
    split at harg
    · rename_i hbefore
      cases harg
      rw [← hbefore]
      exact (splitOnce_eq_some_iff.mp hsplit).1
    · cases harg

/-- The two languages evaluate every key of a union alike. -/
theorem evaluateUnionKey_eq (inst : JSON) (key : List Char) :
    evaluateUnionKey inst key = evaluateUnionKeyPython inst key := by
  induction h : key.length using Nat.strong_induction_on generalizing key with
  | _ n ih =>
    rw [evaluateUnionKey, evaluateUnionKeyPython]
    by_cases halways : key = "always".toList
    · rw [if_pos halways, if_pos halways]
    by_cases hnever : key = "never".toList
    · rw [if_neg halways, if_neg halways, if_pos hnever, if_pos hnever]
    rw [if_neg halways, if_neg halways, if_neg hnever, if_neg hnever]
    cases hsplit : splitOnce ':' key with
    | none =>
      have hnone : ∀ kind, ':' ∉ kind → argument kind key = none := fun kind hkind => by
        rw [argument_eq hkind, hsplit, Option.bind_none]
      split
      · rename_i hnot
        rw [hnone _ (by decide)] at hnot
        cases hnot
      · rw [hnone "const".toList (by decide), hnone "singleproperty".toList (by decide),
          hnone "type".toList (by decide), hnone "hasattr".toList (by decide)]
        rfl
    | some parts =>
      obtain ⟨kind, arg⟩ := parts
      have hkind : ∀ k, ':' ∉ k → argument k key = if kind = k then some arg else none :=
        fun k hk => by rw [argument_eq hk, hsplit, Option.bind_some]
      have hlength : arg.length < n := by
        rw [← h, (splitOnce_eq_some_iff.mp hsplit).1, List.length_append, List.length_cons]
        omega
      simp only
      split
      · rename_i arg' hnot
        rw [hkind _ (by decide)] at hnot
        split at hnot
        · rename_i heq
          cases hnot
          rw [if_pos heq, ih _ hlength _ rfl]
        · cases hnot
      · rename_i hnot
        rw [hkind _ (by decide)] at hnot
        have hne : kind ≠ "not".toList := fun heq => by simp [heq] at hnot
        rw [if_neg hne, hkind "const".toList (by decide), hkind "singleproperty".toList (by decide),
          hkind "type".toList (by decide), hkind "hasattr".toList (by decide)]
        split_ifs <;> rfl

/-- As many items match, and errors are selected in both or in neither. -/
def Selection.Alike (s s' : Selection) : Prop :=
  (s.selected = [] ↔ s'.selected = []) ∧ s.valid = s'.valid

theorem selectItem_alike (evaluate : List Char → Option Bool) {s s' : Selection} (key : String)
    {o o' : Outcome} (hs : s.Alike s') (ho : Alike o o') :
    Option.Rel Selection.Alike (selectItem evaluate s (key, o))
      (selectItem evaluate s' (key, o')) := by
  obtain ⟨hselected, hvalid⟩ := hs
  cases ho with
  | failed => exact .none
  | accepted => exact .some ⟨hselected, congrArg (· + 1) hvalid⟩
  | rejected =>
    simp only [selectItem, Option.bind_eq_bind, Option.bind_some, reduceCtorEq, if_false]
    by_cases hnone : s.selected = []
    · rw [if_pos hnone, if_pos (hselected.mp hnone)]
      rcases evaluate key.toList with _ | _ | _
      · exact .none
      · exact .some ⟨hselected, hvalid⟩
      · exact .some ⟨by simp, hvalid⟩
    · rw [if_neg hnone, if_neg fun h => hnone (hselected.mpr h)]
      exact .some ⟨hselected, hvalid⟩

theorem selected_alike (evaluate : List Char → Option Bool) {s s' : Selection}
    {items items' : List (String × Outcome)} (hs : s.Alike s') (h : ItemsAlike items items') :
    Option.Rel Selection.Alike (items.foldlM (selectItem evaluate) s)
      (items'.foldlM (selectItem evaluate) s') := by
  induction h generalizing s s' with
  | nil => exact .some hs
  | @cons x y _ _ hxy _ ih =>
    obtain ⟨key, o⟩ := x
    obtain ⟨key', o'⟩ := y
    obtain ⟨rfl, ho⟩ := hxy
    have hitem := selectItem_alike evaluate key hs ho
    rw [List.foldlM_cons, List.foldlM_cons]
    generalize selectItem evaluate s (key, o) = t at hitem ⊢
    generalize selectItem evaluate s' (key, o') = t' at hitem ⊢
    cases hitem with
    | none => exact .none
    | some hs => exact ih hs

theorem union_alike (defaultMessage : Option String) {items items' : List (String × Outcome)}
    (h : ItemsAlike items items') (inst : JSON) :
    Alike (unionValidate defaultMessage items inst) (union defaultMessage items' inst) := by
  have hevaluate : evaluateUnionKey inst = evaluateUnionKeyPython inst :=
    funext (evaluateUnionKey_eq inst)
  have hselected := selected_alike (evaluateUnionKeyPython inst) (s := ⟨[], 0⟩) ⟨Iff.rfl, rfl⟩ h
  rw [unionValidate, union, hevaluate, selectErrors, selectErrors]
  generalize List.foldlM (selectItem _) _ items = t at hselected ⊢
  generalize List.foldlM (selectItem _) _ items' = t' at hselected ⊢
  cases hselected with
  | none => exact .failed
  | @some t t' ht =>
    obtain ⟨hsel, hvalid⟩ := ht
    simp only [Option.bind_eq_bind, Option.bind_some, hvalid]
    split_ifs with hone hmore h₁ h₂ h₂
    · exact .accepted
    · exact .rejected
    · exact .rejected
    · exact absurd (hsel.mp h₁) h₂
    · exact absurd (hsel.mpr h₂) h₁
    · exact alike_of_iff hsel

end Determined.Schemas
