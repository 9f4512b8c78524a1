import Determined.Schemes.PositionSort
import Determined.Scheduler.Limits

/-! Which group the slot offers give up when they deadlock.

    The victim is the first stuck group of `byTime`, which is meant to list the groups from the
    youngest to the oldest. Its sort compares `states[i]` and `states[j]` while it moves the
    elements of `byTime`, so it goes by where the sort by demand left the groups. -/

namespace Determined.Scheduler
open Determined.Schemes

/-- When the group at a position was registered. -/
def registeredAt (states : List OfferState) (i : ℕ) : ℤ :=
  (states[i]?).elim 0 (·.group.registeredTime)

/-- The comparison of the second sort. -/
def registeredAfter (states : List OfferState) (i j : ℕ) : Bool :=
  decide (registeredAt states j < registeredAt states i)

/-- The group at a position cannot start its smallest pending task with its offer. -/
def Filling.stuckAt (f : Filling) (i : ℕ) : Bool := (f.states[i]?).any (·.deadlocked)

/-- Of all stuck groups, none was registered after this one. -/
structure Filling.Youngest (f : Filling) (i : ℕ) : Prop where
  stuck : f.stuckAt i = true
  last : ∀ j, f.stuckAt j = true → registeredAt f.states j ≤ registeredAt f.states i

section Orders

variable {states : List GroupState} (order : SortedStates states)

/-- `sort.Slice` sorts up to six elements by insertion; what becomes of more elements is not
    specified if the comparison is not about the elements. -/
def SortedStates.BySlice : Prop :=
  order.sorted.length ≤ 6 →
    order.byTime = insertionSort (registeredAfter order.sorted) (List.range order.sorted.length)

/-- A round that exhausts the capacity while some group is stuck. -/
structure SortedStates.Exhausts (capacity : ℤ) (f : Filling) : Prop where
  visited : Visits (fillBody order.byTime) (order.start capacity) f
  left : 0 < f.statesLeft
  exhausted : f.pass.capacity = 0
  stuck : ∃ i, f.pass.stuckAt i = true

/-- The round disables the youngest of the stuck groups. -/
def SortedStates.DisablesYoungest (f : Filling) : Prop :=
  ∃ i, fillBody order.byTime f = .inl (f.pass.disable i) ∧ f.pass.Youngest i

/-- From the first stuck group on, by demand, each group was registered after the one before it, up
    to the youngest stuck group. Among more than six groups, all stuck ones were registered at the
    same time. -/
def SortedStates.RisesToYoungest (f : Filling) : Prop :=
  if order.sorted.length ≤ 6 then
    ∀ i, f.stuckAt i = true → (∀ j < i, f.stuckAt j = false) →
      ∃ k, i ≤ k ∧ f.Youngest k ∧ Rises (registeredAfter f.states) i k
  else ∀ i j, f.stuckAt i = true → f.stuckAt j = true →
    registeredAt f.states i = registeredAt f.states j

end Orders

/-! ### What the filling keeps -/

variable {states : List GroupState} {order : SortedStates states} {capacity : ℤ}
variable {f t u : Filling} {byTime byTime' : List ℕ} {i j : ℕ}

theorem Pass.groups {startCapacity capacity' : ℤ} {states states' : List OfferState}
    (h : Pass startCapacity states capacity states' capacity') :
    states'.map (fun st => (st.group, st.disabled)) =
      states.map fun st => (st.group, st.disabled) := by
  induction h with
  | nil => rfl
  | skip _ _ ih => rw [List.map_cons, List.map_cons, ih]
  | offer _ _ _ ih =>
    rw [List.map_cons, List.map_cons, ih]
    rfl

/-- The groups stay where the first sort left them. -/
def Filling.groups (f : Filling) : List Group := f.states.map (·.group)

theorem registeredAt_eq (f : Filling) (i : ℕ) :
    registeredAt f.states i = (f.groups[i]?).elim 0 (·.registeredTime) := by
  rw [registeredAt, Filling.groups, List.getElem?_map]
  cases f.states[i]? <;> rfl

theorem registeredAfter_eq (h : f.groups = t.groups) :
    registeredAfter f.states = registeredAfter t.states := by
  funext i j
  rw [registeredAfter, registeredAfter, registeredAt_eq, registeredAt_eq, registeredAt_eq,
    registeredAt_eq, h]

theorem Filling.groups_pass (f : Filling) : f.pass.groups = f.groups := by
  have h := congrArg (List.map Prod.fst) f.pass_spec.1.groups
  simpa [Filling.groups, Function.comp_def] using h

theorem Filling.groups_disable (f : Filling) (i : ℕ) : (f.disable i).groups = f.groups := by
  refine List.ext_getElem? fun j => ?_
  simp only [Filling.groups, Filling.disable, List.getElem?_map, List.getElem?_modify]
  cases f.states[j]? with
  | none => rfl
  | some st =>
    simp only [Option.map_eq_map, Option.map_some]
    split <;> rfl

theorem groups_fillBody (hb : fillBody byTime f = .inl t) : t.groups = f.groups := by
  rcases fillBody_inl hb with ⟨-, i, -, rfl⟩ | ⟨-, -, rfl⟩
  · rw [Filling.groups_disable, Filling.groups_pass]
  · exact f.groups_pass

theorem groups_visits (h : Visits (fillBody byTime) f t) : t.groups = f.groups := by
  induction h with
  | start => rfl
  | next hb _ ih => rw [ih, groups_fillBody hb]

/-- The group at a position was disabled. -/
def Filling.disabledAt (f : Filling) (i : ℕ) : Bool := (f.states[i]?).any (·.disabled)

theorem Filling.disabledAt_pass (f : Filling) (i : ℕ) : f.pass.disabledAt i = f.disabledAt i := by
  have h := congrArg (List.map Prod.snd) f.pass_spec.1.groups
  simp only [List.map_map, Function.comp_def] at h
  have hi := congrArg (fun flags : List Bool => (flags[i]?).any id) h
  simpa [Filling.disabledAt, Option.any_map, Function.comp_def] using hi

theorem Filling.disabledAt_disable (h : f.stuckAt j = true) :
    (f.disable i).disabledAt j = decide (j = i) := by
  obtain ⟨st, hst, hdead⟩ := Option.any_eq_true .. |>.mp h
  have hen := (OfferState.active_iff.mp (OfferState.active_of_deadlocked hdead)).1
  simp only [Filling.disabledAt, Filling.disable, List.getElem?_modify, hst]
  rcases eq_or_ne j i with rfl | hne
  · simp [OfferState.disable]
  · simp [hne.symm, hne, hen]

theorem Filling.disabledAt_of_disable (h : f.disabledAt j = true) :
    (f.disable i).disabledAt j = true := by
  obtain ⟨st, hst, hdis⟩ := Option.any_eq_true .. |>.mp h
  simp only [Filling.disabledAt, Filling.disable, List.getElem?_modify, hst]
  rcases eq_or_ne i j with rfl | hne
  · simp [OfferState.disable]
  · simp [hne, hdis]

theorem stuckAt_of_disabledAt (h : f.disabledAt i = true) : f.stuckAt i = false := by
  obtain ⟨st, hst, hdis⟩ := Option.any_eq_true .. |>.mp h
  simp [Filling.stuckAt, hst, OfferState.deadlocked, OfferState.active, hdis]

theorem disabledAt_visits (h : Visits (fillBody byTime) f t) (hi : f.disabledAt i = true) :
    t.disabledAt i = true := by
  induction h with
  | start => exact hi
  | next hb _ ih =>
    rcases fillBody_inl hb with ⟨-, j, -, rfl⟩ | ⟨-, -, rfl⟩
    · exact ih (Filling.disabledAt_of_disable (by rwa [Filling.disabledAt_pass]))
    · exact ih (by rwa [Filling.disabledAt_pass])

theorem lt_of_stuckAt (h : f.stuckAt i = true) : i < f.groups.length := by
  obtain ⟨st, hst, -⟩ := Option.any_eq_true .. |>.mp h
  rw [Filling.groups, List.length_map]
  exact (List.getElem?_eq_some_iff.mp hst).1

/-! ### The victim of a round -/

theorem SortedStates.Exhausts.groups (h : order.Exhausts capacity f) :
    f.pass.groups = order.sorted.map (·.group) := by
  rw [f.groups_pass, groups_visits h.visited]
  rfl

theorem SortedStates.Exhausts.mem_byTime (h : order.Exhausts capacity f)
    (hi : f.pass.stuckAt i = true) : i ∈ order.byTime ∧ i < order.sorted.length := by
  have hlt := lt_of_stuckAt hi
  rw [h.groups, List.length_map] at hlt
  exact ⟨order.byTime_perm.mem_iff.mpr (List.mem_range.mpr hlt), hlt⟩

/-- The round disables the first stuck group of `byTime`. -/
theorem SortedStates.Exhausts.victim (h : order.Exhausts capacity f) :
    ∃ i, f.pass.deadlockedGroup order.byTime = some i ∧ f.pass.stuckAt i = true ∧
      fillBody order.byTime f = .inl (f.pass.disable i) := by
  obtain ⟨j, hj⟩ := h.stuck
  have hsome : (f.pass.deadlockedGroup order.byTime).isSome :=
    List.find?_isSome.mpr ⟨j, (h.mem_byTime hj).1, hj⟩
  obtain ⟨i, hi⟩ := Option.isSome_iff_exists.mp hsome
  refine ⟨i, hi, List.find?_some hi, ?_⟩
  rw [fillBody, if_pos h.left]
  simp [h.exhausted, hi]

/-- A round disables one group only. -/
theorem disable_inj (hi : f.stuckAt i = true) (h : f.disable i = f.disable j) : i = j := by
  have hdis : (f.disable i).disabledAt i = true := by simp [Filling.disabledAt_disable hi]
  rw [h, Filling.disabledAt_disable hi] at hdis
  exact of_decide_eq_true hdis

theorem SortedStates.Exhausts.disablesYoungest_iff (h : order.Exhausts capacity f)
    (hi : f.pass.deadlockedGroup order.byTime = some i) :
    order.DisablesYoungest f ↔ f.pass.Youngest i := by
  obtain ⟨i', hi', -, hbody⟩ := h.victim
  obtain rfl := Option.some.inj (hi.symm.trans hi')
  constructor
  · rintro ⟨j, hj, hyoung⟩
    rw [hbody] at hj
    rwa [← disable_inj hyoung.stuck (Sum.inl.inj hj).symm]
  · exact fun hyoung => ⟨i, hbody, hyoung⟩

/-- The first stuck group of `byTime` is disabled though another one is younger. -/
theorem SortedStates.misses_youngest (hvisited : Visits (fillBody order.byTime)
      (order.start capacity) f) (hleft : 0 < f.statesLeft) (hexhausted : f.pass.capacity = 0)
    (hi : f.pass.deadlockedGroup order.byTime = some i) (hj : f.pass.stuckAt j = true)
    (hlt : registeredAt f.pass.states i < registeredAt f.pass.states j) :
    order.Exhausts capacity f ∧ ¬ order.DisablesYoungest f := by
  have hround : order.Exhausts capacity f := ⟨hvisited, hleft, hexhausted, j, hj⟩
  refine ⟨hround, fun hyoung => ?_⟩
  have hle := ((hround.disablesYoungest_iff hi).mp hyoung).last j hj
  omega

/-! ### Up to six groups -/

/-- In the sorted positions, the youngest stuck group comes first just if the registration times
    rise up to it from the first stuck group. -/
theorem SortedStates.Exhausts.disablesYoungest_short (h : order.Exhausts capacity f)
    (hslice : order.BySlice) (hlen : order.sorted.length ≤ 6) :
    order.DisablesYoungest f ↔ order.RisesToYoungest f.pass := by
  obtain ⟨v, hv, hstuck, -⟩ := h.victim
  have hless : registeredAfter f.pass.states = registeredAfter order.sorted :=
    registeredAfter_eq (t := order.start capacity) h.groups
  rw [h.disablesYoungest_iff hv, SortedStates.RisesToYoungest, if_pos hlen, hless]
  rw [hslice hlen] at hv
  have hfirst : ∀ j, f.pass.stuckAt j = true →
      j = v ∨ LeftBefore (registeredAfter order.sorted) v j :=
    fun j hj => find?_insertionSort hv (h.mem_byTime hj).2 hj
  constructor
  · intro hyoung i hi hmin
    have hle : i ≤ v := by
      by_contra hlt
      rw [hmin v (not_le.mp hlt)] at hstuck
      cases hstuck
    refine ⟨v, hle, hyoung, ?_⟩
    rcases hfirst i hi with rfl | ⟨hlt, -⟩ | ⟨-, hrises⟩
    · exact fun k hk hk' => absurd hk (not_le.mpr hk')
    · exact absurd hlt (not_lt.mpr hle)
    · exact hrises
  · intro hrises
    have hex : ∃ i, f.pass.stuckAt i = true := h.stuck
    obtain ⟨k, hle, hyoung, hrun⟩ := hrises (Nat.find hex) (Nat.find_spec hex)
      fun j hj => Bool.eq_false_iff.mpr (Nat.find_min hex hj)
    have hmin : Nat.find hex ≤ v := Nat.find_min' hex hstuck
    -- the victim is not before the youngest group, whose run it would be in
    rcases hfirst k hyoung.stuck with rfl | ⟨hlt, hnot⟩ | ⟨hlt, hrises⟩
    · exact hyoung
    · exact absurd (fun m hm hm' => hrun m (hmin.trans hm) hm') hnot
    · have hmono : ∀ m, k ≤ m → m ≤ v →
          registeredAt f.pass.states k ≤ registeredAt f.pass.states m := by
        intro m hm
        induction m, hm using Nat.le_induction with
        | base => exact fun _ => le_rfl
        | succ m hm ih =>
          intro hmv
          have hstep := hrises m hm (by omega)
          rw [← hless] at hstep
          exact (ih (by omega)).trans (of_decide_eq_true hstep).le
      exact ⟨hstuck, fun j hj => (hyoung.last j hj).trans (hmono v hlt.le le_rfl)⟩

/-! ### More than six groups -/

theorem find?_filter_append {α : Type*} {p d : α → Bool} {xs ys : List α} {a : α}
    (h : xs.find? p = some a) (hd : d a = true) : (xs.filter d ++ ys).find? p = some a := by
  obtain ⟨hp, before, after, rfl, hnone⟩ := List.find?_eq_some_iff_append.mp h
  refine List.find?_eq_some_iff_append.mpr ⟨hp, before.filter d, after.filter d ++ ys, ?_, ?_⟩
  · simp [hd]
  · exact fun b hb => hnone b (List.mem_of_mem_filter hb)

/-- An order that lists the groups disabled so far as they were disabled leads to the same round. -/
theorem visits_filter (rest : List ℕ) (h : Visits (fillBody byTime) f t) :
    Visits (fillBody (byTime.filter t.disabledAt ++ rest)) f t := by
  induction h with
  | start => exact .start _
  | @next f u t hb hu ih =>
    refine .next ?_ ih
    have hleft : f.statesLeft > 0 := by
      by_contra hle
      rw [fillBody, if_neg hle] at hb
      cases hb
    rcases fillBody_inl hb with ⟨hcap, i, hi, rfl⟩ | ⟨hcap, -, rfl⟩
    · have hstuck : f.pass.stuckAt i = true := List.find?_some hi
      have hdis : t.disabledAt i = true :=
        disabledAt_visits hu (by simp [Filling.disabledAt_disable hstuck])
      have hi' : f.pass.deadlockedGroup (byTime.filter t.disabledAt ++ rest) = some i :=
        find?_filter_append hi hdis
      rw [fillBody, if_pos hleft]
      simp [hcap, hi']
    · rw [fillBody, if_pos hleft] at hb ⊢
      simpa [hcap] using hb

/-- Any stuck group may come first among the groups that are not disabled. -/
theorem SortedStates.Exhausts.reorder (h : order.Exhausts capacity f)
    (hi : f.pass.stuckAt i = true) : ∃ order' : SortedStates states,
      order'.sorted = order.sorted ∧ order'.Exhausts capacity f ∧
        f.pass.deadlockedGroup order'.byTime = some i := by
  have hen : f.disabledAt i = false := by
    rw [← Filling.disabledAt_pass, Bool.eq_false_iff]
    intro hdis
    rw [stuckAt_of_disabledAt hdis] at hi
    cases hi
  have hmem : i ∈ order.byTime.filter (fun j => !f.disabledAt j) :=
    List.mem_filter.mpr ⟨(h.mem_byTime hi).1, by simp [hen]⟩
  refine ⟨{ order with
    byTime := order.byTime.filter f.disabledAt ++
      i :: (order.byTime.filter fun j => !f.disabledAt j).erase i
    byTime_perm := ?_ }, rfl, ⟨visits_filter _ h.visited, h.left, h.exhausted, h.stuck⟩, ?_⟩
  · refine (((List.perm_cons_erase hmem).symm.append_left _).trans ?_).trans order.byTime_perm
    exact List.filter_append_perm _ _
  · refine List.find?_eq_some_iff_append.mpr ⟨hi, _, _, rfl, fun j hj => ?_⟩
    have hdis : f.pass.disabledAt j = true := by
      rw [Filling.disabledAt_pass]
      exact List.of_mem_filter hj
    have hnot : f.pass.stuckAt j = false := stuckAt_of_disabledAt hdis
    simpa [Filling.stuckAt] using hnot

/-- Three groups wait to run a task each, of two, three and three slots. -/
def threeTasks : TaskList where
  tasks := [⟨0, 2, "", 0, false⟩, ⟨1, 3, "", 1, false⟩, ⟨2, 3, "", 2, false⟩]
  allocations _ := none

/-- The second group was registered first, the first group second. -/
def threeGroups : List Group := [⟨0, 2, none, 1⟩, ⟨1, 1, none, 1⟩, ⟨2, 3, none, 1⟩]

def threeSlots (_label : String) : ℤ := 3

/-- The order of three groups that are passed in as they are sorted. -/
def inOrder {a b c : GroupState} (h : states = [a, b, c])
    (hab : ¬ (preoffer b).before (preoffer a)) (hac : ¬ (preoffer c).before (preoffer a))
    (hbc : ¬ (preoffer c).before (preoffer b)) : SortedStates states where
  sorted := [preoffer a, preoffer b, preoffer c]
  sorted_perm := by rw [h]; exact .refl _
  sorted_ordered := by simp [hab, hac, hbc]
  byTime := [0, 2, 1]
  byTime_perm := (List.Perm.swap 1 2 []).cons 0

end Determined.Scheduler
