import Determined.Container.State

/-! What someone is told about a container over its life.

    Of all that an actor tells, a *listener* hears some, and some of that reports a new state of the
    container. The reports are in order if they follow valid transitions and nothing is heard after
    the container terminated. `Progress` is what the actor keeps between two messages to that end. -/

namespace Determined.Container

/-- Which messages are heard, and which of them report a state. -/
structure Listener (ο : Type*) where
  hears : ο → Bool
  reports : ο → Option State
  hears_of_reports : ∀ m s, reports m = some s → hears m = true

variable {ο : Type*} {L : Listener ο} {s t : State} {told more : List ο} {m : ο}

/-- The states reported, in order. -/
def Listener.reported (L : Listener ο) (told : List ο) : List State := told.filterMap L.reports

/-- The listener learns that the container terminated. -/
def Listener.terminates (L : Listener ο) (m : ο) : Bool := L.reports m == some .terminated

/-- The container went through valid transitions, and once it terminated nothing more was heard. -/
structure InOrder (L : Listener ο) (told : List ο) : Prop where
  path : Path .assigned (L.reported told)
  running_once : (L.reported told).count .running ≤ 1
  terminated_once : (L.reported told).count .terminated ≤ 1
  nothing_after : ∀ before m after, told.filter L.hears = before ++ m :: after →
    L.terminates m = true → after = []

/-- The states reported are a path to `s`, and only the last message heard may say that the container
    terminated. -/
structure Progress (L : Listener ο) (s : State) (told : List ο) : Prop where
  path : Path .assigned (L.reported told)
  last : (State.assigned :: L.reported told).getLast? = some s
  quiet : ∀ m ∈ (told.filter L.hears).dropLast, L.terminates m = false

theorem reported_append : L.reported (told ++ more) = L.reported told ++ L.reported more :=
  List.filterMap_append

theorem mem_reported_of_terminates (hm : m ∈ told) (ht : L.terminates m = true) :
    State.terminated ∈ L.reported told :=
  List.mem_filterMap.mpr ⟨m, hm, by simpa [Listener.terminates] using ht⟩

theorem progress_nil : Progress L .assigned [] := ⟨path_nil _, rfl, by simp⟩

/-- Nothing follows the terminated state on a path. -/
theorem Progress.eq_terminated (h : Progress L s told) (ht : State.terminated ∈ L.reported told) :
    s = .terminated := by
  obtain ⟨l, hl⟩ := List.getLast?_eq_some_iff.mp h.last
  have hpair := h.path.pairwise
  rw [hl] at hpair
  have hmem : State.terminated ∈ l ++ [s] := hl ▸ List.mem_cons_of_mem _ ht
  rcases List.mem_append.mp hmem with hmem | hmem
  · have hlt := (List.pairwise_append.mp hpair).2.2 _ hmem s (List.mem_singleton.mpr rfl)
    revert hlt
    cases s <;> decide
  · exact (List.mem_singleton.mp hmem).symm

/-- The state reported last is the container's. -/
theorem Progress.mem_reported (h : Progress L s told) (hs : s ≠ .assigned) :
    s ∈ L.reported told := by
  obtain ⟨l, hl⟩ := List.getLast?_eq_some_iff.mp h.last
  have hin : s ∈ State.assigned :: L.reported told := by
    rw [hl]
    exact List.mem_append_right _ (List.mem_singleton.mpr rfl)
  exact (List.mem_cons.mp hin).resolve_left hs

theorem Progress.terminated_iff (h : Progress L s told) :
    State.terminated ∈ L.reported told ↔ s = .terminated := by
  refine ⟨h.eq_terminated, ?_⟩
  rintro rfl
  exact h.mem_reported (by decide)

theorem Progress.unterminated (h : Progress L s told) (hs : s ≠ .terminated) :
    ∀ m ∈ told.filter L.hears, L.terminates m = false := by
  intro m hm
  rw [Bool.eq_false_iff]
  exact fun ht => hs (h.eq_terminated (mem_reported_of_terminates (List.mem_filter.mp hm).1 ht))

theorem filter_hears_append (hm : L.hears m = true) :
    (told ++ [m]).filter L.hears = told.filter L.hears ++ [m] := by
  rw [List.filter_append, List.filter_cons_of_pos hm, List.filter_nil]

/-- The container makes a valid transition and it is reported. -/
theorem Progress.change (h : Progress L s told) (hst : validTransitions s t = true)
    (hm : L.reports m = some t) : Progress L t (told ++ [m]) := by
  have hs : s ≠ .terminated := by
    rintro rfl
    cases t <;> cases hst
  have hrep : L.reported (told ++ [m]) = L.reported told ++ [t] := by
    rw [reported_append]
    simp [Listener.reported, hm]
  refine ⟨?_, ?_, ?_⟩
  · rw [hrep]
    exact h.path.snoc h.last hst
  · rw [hrep, ← List.cons_append, List.getLast?_concat]
  · rw [filter_hears_append (L.hears_of_reports m t hm), List.dropLast_concat]
    exact h.unterminated hs

theorem reported_append_of_none (hmore : ∀ m ∈ more, L.reports m = none) :
    L.reported (told ++ more) = L.reported told := by
  rw [reported_append, Listener.reported, Listener.reported, List.filterMap_eq_nil_iff.mpr hmore,
    List.append_nil]

/-- Something else is heard before the container terminates. -/
theorem Progress.other (h : Progress L s told) (hs : s ≠ .terminated) (hm : L.reports m = none)
    (hh : L.hears m = true) : Progress L s (told ++ [m]) := by
  have hrep : L.reported (told ++ [m]) = L.reported told :=
    reported_append_of_none (by simpa using hm)
  refine ⟨hrep ▸ h.path, hrep ▸ h.last, ?_⟩
  rw [filter_hears_append hh, List.dropLast_concat]
  exact h.unterminated hs

/-- What is not heard does not matter. -/
theorem Progress.append (h : Progress L s told) (hmore : ∀ m ∈ more, L.hears m = false) :
    Progress L s (told ++ more) := by
  have hrep : L.reported (told ++ more) = L.reported told := by
    refine reported_append_of_none fun m hm => ?_
    by_contra hne
    obtain ⟨t, ht⟩ := Option.ne_none_iff_exists'.mp hne
    exact absurd (L.hears_of_reports m t ht) (by simp [hmore m hm])
  have hfilter : (told ++ more).filter L.hears = told.filter L.hears := by
    have hnil : more.filter L.hears = [] :=
      List.filter_eq_nil_iff.mpr fun m hm => by simp [hmore m hm]
    rw [List.filter_append, hnil, List.append_nil]
  exact ⟨hrep ▸ h.path, hrep ▸ h.last, hfilter ▸ h.quiet⟩

theorem Progress.inOrder (h : Progress L s told) : InOrder L told := by
  refine ⟨h.path, h.path.count_le_one _, h.path.count_le_one _, fun before m after heq ht => ?_⟩
  rcases List.eq_nil_or_concat after with rfl | ⟨init, x, rfl⟩
  · rfl
  · have hmem : m ∈ (told.filter L.hears).dropLast := by
      rw [heq, List.concat_eq_append, ← List.cons_append, ← List.append_assoc, List.dropLast_concat]
      exact List.mem_append_right _ (List.mem_cons_self ..)
    exact absurd ht (by simp [h.quiet m hmem])

/-- Once the container has terminated, anything else that is heard is one message too many. -/
theorem Progress.not_inOrder (h : Progress L .terminated told) (hm : L.hears m = true) :
    ¬ InOrder L (told ++ [m]) := by
  intro horder
  obtain ⟨x, hx, hrx⟩ := List.mem_filterMap.mp (h.mem_reported (by decide))
  have hheard : x ∈ told.filter L.hears := List.mem_filter.mpr ⟨hx, L.hears_of_reports x _ hrx⟩
  obtain ⟨before, after, hsplit⟩ := List.append_of_mem hheard
  have hnil := horder.nothing_after before x (after ++ [m])
    (by rw [filter_hears_append hm, hsplit]; simp) (by simp [Listener.terminates, hrx])
  exact absurd hnil (by simp)

end Determined.Container
