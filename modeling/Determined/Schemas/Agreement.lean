import Determined.Schemas.Validation
import Determined.Schemas.Keywords

/-! The master and the client accept the same values under a schema, if its comparisons and
    requirements agree at the places that the validation comes to. Every other keyword follows from
    the schemas below it. -/

namespace Determined.Schemas

theorem Alike.both {o₁ o₂ o₁' o₂' : Outcome} (h₁ : Alike o₁ o₁') (h₂ : Alike o₂ o₂') :
    Alike (Schemas.both o₁ o₂) (Schemas.both o₁' o₂') := by
  cases h₁ <;> cases h₂ <;> first | exact failed | exact accepted | exact rejected

/-- The libraries apply the same schemas to the same values, and from outcomes that are alike they
    come to outcomes that are. -/
structure Library.Agree {σ : Type} (go python : Library σ) : Prop where
  parts : ∀ k inst, go.parts k inst = python.parts k inst
  judge : ∀ k inst outcomes outcomes', List.Forall₂ Alike outcomes outcomes' →
    Alike (go.judge k inst outcomes) (python.judge k inst outcomes')

namespace Schema

variable {σ : Type} (lib : Library σ) (draws : Site → ℕ)

mutual

/-- The languages agree on every comparison and every requirement that the master comes to. -/
def Undisputed : Schema σ → Site → JSON → Prop
  | always _, _, _ => True
  | keywords ks, site, inst => UndisputedAll ks site inst
  | standard k below, site, inst => ∀ n part, (lib.parts k inst)[n]? = some part →
      UndisputedNth below part.1 (n :: site) part.2
  | compareProperties cmp, _, inst => ComparedAlike cmp inst
  | eventuallyRequired required, _, inst => RequiredAlike required inst
  | disallowProperties _, _, _ => True
  | checks compiled, site, inst => UndisputedItems compiled site inst
  | conditional test tested enforce, site, inst => Undisputed tested (0 :: site) inst ∧
      (test.leads (validate lib draws tested (0 :: site) inst) = true →
        Undisputed enforce (1 :: site) inst)
  | union _ items, site, inst => UndisputedItems items site inst

def UndisputedAll : List (Schema σ) → Site → JSON → Prop
  | [], _, _ => True
  | s :: rest, site, inst => Undisputed s (0 :: site) inst ∧ UndisputedAll rest (1 :: site) inst

def UndisputedNth : List (Schema σ) → ℕ → Site → JSON → Prop
  | [], _, _, _ => True
  | s :: _, 0, site, inst => Undisputed s site inst
  | _ :: rest, n + 1, site, inst => UndisputedNth rest n site inst

def UndisputedItems : List (String × Schema σ) → Site → JSON → Prop
  | [], _, _ => True
  | (_, s) :: rest, site, inst =>
    Undisputed s (0 :: site) inst ∧ UndisputedItems rest (1 :: site) inst

end

/-! ### Agreement -/

variable {lib python : Library σ} {draws : Site → ℕ}

mutual

/-- One case for each keyword. -/
theorem validate_alike (hlib : lib.Agree python) : ∀ (s : Schema σ) {site : Site} {inst : JSON},
    s.Undisputed lib draws site inst → Alike (s.validate lib draws site inst) (s.descend python inst)
  | always accept, _, _, _ => by
    rw [validate, descend]
    exact .refl _
  | keywords ks, _, _, h => by
    rw [validate, descend]
    exact validateAll_alike hlib ks (by rwa [Undisputed] at h)
  | standard k below, site, inst, h => by
    rw [validate, descend]
    rw [Undisputed] at h
    refine hlib.judge k inst _ _ ?_
    rw [← hlib.parts, List.forall₂_iff_get]
    refine ⟨by rw [List.length_mapIdx, List.length_map], fun n h₁ h₂ => ?_⟩
    rw [List.length_map] at h₂
    simp only [List.get_eq_getElem, List.getElem_mapIdx, List.getElem_map]
    exact validateNth_alike hlib below (h n _ (List.getElem?_eq_getElem h₂))
  | compareProperties cmp, _, _, h => by
    rw [validate, descend]
    exact compared_alike (by rwa [Undisputed] at h) _ _
  | eventuallyRequired required, _, _, h => by
    rw [validate, descend]
    exact required_alike (by rwa [Undisputed] at h)
  | disallowProperties disallowed, _, inst, _ => by
    rw [validate, descend]
    exact disallowed_alike disallowed inst
  | checks compiled, _, _, h => by
    rw [validate, descend]
    exact checks_alike (validateItems_alike hlib compiled (by rwa [Undisputed] at h))
  | conditional test tested enforce, _, _, h => by
    rw [validate, descend]
    rw [Undisputed] at h
    exact conditional_alike test (validate_alike hlib tested h.1)
      fun hleads => validate_alike hlib enforce (h.2 hleads)
  | union defaultMessage items, _, inst, h => by
    rw [validate, descend]
    exact union_alike defaultMessage (validateItems_alike hlib items (by rwa [Undisputed] at h)) inst

theorem validateAll_alike (hlib : lib.Agree python) :
    ∀ (ks : List (Schema σ)) {site : Site} {inst : JSON}, UndisputedAll lib draws ks site inst →
      Alike (validateAll lib draws ks site inst) (descendAll python ks inst)
  | [], _, _, _ => by
    rw [validateAll, descendAll]
    exact .accepted
  | s :: rest, _, _, h => by
    rw [validateAll, descendAll]
    rw [UndisputedAll] at h
    exact (validate_alike hlib s h.1).both (validateAll_alike hlib rest h.2)

theorem validateNth_alike (hlib : lib.Agree python) :
    ∀ (below : List (Schema σ)) {n : ℕ} {site : Site} {inst : JSON},
    UndisputedNth lib draws below n site inst →
      Alike (validateNth lib draws below n site inst) (descendNth python below n inst)
  | [], _, _, _, _ => by
    rw [validateNth, descendNth]
    exact .accepted
  | s :: _, 0, _, _, h => by
    rw [validateNth, descendNth]
    exact validate_alike hlib s (by rwa [UndisputedNth] at h)
  | _ :: rest, n + 1, _, _, h => by
    rw [validateNth, descendNth]
    exact validateNth_alike hlib rest (by rwa [UndisputedNth] at h)

theorem validateItems_alike (hlib : lib.Agree python) :
    ∀ (items : List (String × Schema σ)) {site : Site} {inst : JSON},
    UndisputedItems lib draws items site inst →
      ItemsAlike (validateItems lib draws items site inst) (descendItems python items inst)
  | [], _, _, _ => by
    rw [validateItems, descendItems]
    exact .nil
  | (key, s) :: rest, _, _, h => by
    rw [validateItems, descendItems]
    rw [UndisputedItems] at h
    exact .cons ⟨rfl, validate_alike hlib s h.1⟩ (validateItems_alike hlib rest h.2)

end

end Schema

/-- CORRECT: under libraries that agree, the master accepts a value exactly when the client does, if
    the extensions agree at the places that the validation comes to; and comparisons and required
    properties agree exactly in the cases that are named. -/
theorem extensions_agree_iff {σ : Type} {master client : Library σ} (hlib : master.Agree client) :
    (∀ (s : Schema σ) (draws : Site → ℕ) (inst : JSON), s.Undisputed master draws [] inst →
      (s.validate master draws [] inst = some [] ↔ s.descend client inst = some [])) ∧
    (∀ (cmp : CompareProperty) (inst : JSON),
      (∀ draws : Site → ℕ, ((Schema.compareProperties cmp).validate master draws [] inst = some [] ↔
        (Schema.compareProperties cmp).descend client inst = some [])) ↔ ComparedAlike cmp inst) ∧
    ∀ (required : List String) (inst : JSON),
      (∀ draws : Site → ℕ,
        ((Schema.eventuallyRequired required).validate master draws [] inst = some [] ↔
          (Schema.eventuallyRequired required).descend client inst = some [])) ↔
        RequiredAlike required inst := by
  refine ⟨fun s draws inst h => (s.validate_alike hlib h).accepts_iff, fun cmp inst => ?_,
    fun required inst => ?_⟩
  · simp only [Schema.validate, Schema.descend]
    rw [← compared_agrees_iff]
    constructor
    · intro h dA dB
      exact h fun site => if site = [0] then dA else dB
    · exact fun h draws => h _ _
  · simp only [Schema.validate, Schema.descend, forall_const]
    exact required_agrees_iff required inst

/-- A library with the keyword `properties` only, given the names of the properties. -/
def propertiesLibrary : Library (List String) where
  parts names inst :=
    match inst with
    | .object members => names.zipIdx.filterMap fun name =>
        (members.lookup name.1).map fun value => (name.2, value)
    | _ => []
  judge _ _ outcomes := outcomes.foldr both (some [])

theorem propertiesLibrary_agrees : propertiesLibrary.Agree propertiesLibrary where
  parts _ _ := rfl
  judge _ _ outcomes outcomes' h := by
    rw [propertiesLibrary]
    induction h with
    | nil => exact .accepted
    | cons ho _ ih => exact ho.both ih

/-- A configuration with the name of its searcher is accepted by both. -/
theorem extensions_agree_iff_searcher :
    let s : Schema (List String) := .standard ["searcher"] [.eventuallyRequired ["name"]]
    let inst : JSON := .object [("searcher", .object [("name", .string "grid")])]
    (s.validate propertiesLibrary (fun _ => 0) [] inst = some [] ↔
      s.descend propertiesLibrary inst = some []) := by
  refine (extensions_agree_iff propertiesLibrary_agrees).1 _ _ _ ?_
  rw [Schema.Undisputed]
  rintro (_ | n) part hpart
  · cases hpart
    rw [Schema.UndisputedNth, Schema.Undisputed]
    intro _ key hkey
    rw [List.mem_singleton.mp hkey]
    rfl
  · cases hpart

/-- A required property that is null is missing to the master only. -/
theorem null_property_disputed :
    ¬ ∀ (σ : Type) (master client : Library σ), master.Agree client →
      ∀ (s : Schema σ) (draws : Site → ℕ) (members : JSONObject),
        (s.validate master draws [] (.object members) = some [] ↔
          s.descend client (.object members) = some []) := by
  intro h
  have hnull := h _ _ _ propertiesLibrary_agrees (.eventuallyRequired ["checkpoint_storage"])
    (fun _ => 0) [("checkpoint_storage", .null)]
  rw [Schema.validate, Schema.descend] at hnull
  exact absurd (hnull.mpr (by decide)) (by decide)

end Determined.Schemas
