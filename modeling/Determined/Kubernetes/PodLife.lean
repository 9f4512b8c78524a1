import Determined.Container.Reports
import Determined.Kubernetes.Pod

/-! What a pod actor tells its task over its life.

    Between two letters the states told so far are a path of valid transitions that ends in the
    container's state, and nothing was told after the termination (`Progress`). A status update keeps
    that unless it skips the start of the container, or goes back to it, and a log line keeps it
    unless the container has terminated. The main result, `task_informed_iff`, says that nothing
    else goes wrong. -/

namespace Determined.Kubernetes
open Determined.Container Determined.Schemes

/-! ### What the task is told -/

/-- The task hears of everything but the deletion of resources. -/
def task : Listener Told where
  hears
    | .stateChanged .. | .containerLog .. => true
    | .deleteKubernetesResources .. => false
  reports
    | .stateChanged container _ _ => some container
    | _ => none
  hears_of_reports m s h := by cases m <;> first | rfl | cases h

/-- The actor did not panic, and what it told its task is in order. -/
structure Lawful (a : Live Pod Message Told) : Prop where
  no_panic : a.panicked = false
  in_order : InOrder task a.told

/-! ### One letter -/

/-- A message the pod actor can take: a status update leads on from the container's state, and a log
    line comes before the end. -/
def Orderly (p : Pod) : Message → Prop
  | .podStatusUpdate updatedPod _ =>
    (getPodState updatedPod p.containerNames = .ok .running →
      p.container = .starting ∨ p.container = .running) ∧
    (getPodState updatedPod p.containerNames = .ok .starting →
      p.container = .assigned ∨ p.container = .starting)
  | .containerLog _ | .resourceCreationFailed _ => p.container ≠ .terminated
  | _ => True

/-- What closing the actor needs: what was told leads up to a state that has terminated just if the
    container has. It need not be the container's state, of which the task was perhaps not told. -/
def Closable (p : Pod) (told : List Told) : Prop :=
  ∃ s, Progress task s told ∧ (s = .terminated ↔ p.container = .terminated)

theorem closable_of_progress {p : Pod} {told : List Told} (h : Progress task p.container told) :
    Closable p told := ⟨p.container, h, Iff.rfl⟩

theorem deleteKubernetesResources_spec (p : Pod) :
    p.deleteKubernetesResources.1.container = p.container ∧
      ∀ m ∈ p.deleteKubernetesResources.2, task.hears m = false := by
  unfold Pod.deleteKubernetesResources
  split <;> simp [task]

theorem Closable.finalize {p : Pod} {told : List Told} (h : Closable p told) :
    Progress task p.finalizeTaskState.1.container (told ++ p.finalizeTaskState.2) := by
  obtain ⟨s, hprog, hs⟩ := h
  unfold Pod.finalizeTaskState
  split
  · rename_i hne
    exact hprog.change (valid_terminated fun h => hne (hs.mp h)) rfl
  · rename_i hterm
    rw [Decidable.not_not] at hterm
    rw [List.append_nil, hterm, ← hs.mpr hterm]
    exact hprog

theorem Closable.append {p : Pod} {told more : List Told} (h : Closable p told)
    (hmore : ∀ m ∈ more, task.hears m = false) : Closable p (told ++ more) := by
  obtain ⟨s, hprog, hs⟩ := h
  exact ⟨s, hprog.append hmore, hs⟩

/-- Closing the actor tells the task that its container terminated, unless it knows. -/
theorem Closable.postStop {p : Pod} {told : List Told} (h : Closable p told) :
    Progress task p.postStop.1.container (told ++ p.postStop.2) := by
  unfold Pod.postStop
  rw [← List.append_assoc]
  split
  · rw [List.append_nil]
    exact h.finalize
  · obtain ⟨hcont, hmore⟩ := deleteKubernetesResources_spec p
    refine Closable.finalize ?_
    obtain ⟨s, hprog, hs⟩ := h.append hmore
    exact ⟨s, hprog, hs.trans (by rw [hcont])⟩

/-- What a handled message leaves behind. -/
def Good (told : List Told) (r : PodReaction) : Prop :=
  (r.ending = .done ∧ Progress task r.state.container (told ++ r.told)) ∨
    (r.ending = .failed ∧ Closable r.state (told ++ r.told))

section Updates

variable {p : Pod} {told : List Told}

theorem good_idle (h : Progress task p.container told) : Good told ⟨p, [], [], .done⟩ :=
  .inl ⟨rfl, by simpa using h⟩

theorem good_starting (h : Progress task p.container told) (hc : p.container = .assigned) :
    Good told p.receiveStarting := by
  have hreact : p.receiveStarting = ⟨{ p with container := .starting },
      [.stateChanged .pulling none none, .stateChanged .starting none none], [], .done⟩ := by
    simp [Pod.receiveStarting, Pod.transition, hc, State.transition, validTransitions]
  rw [hreact]
  refine .inl ⟨rfl, ?_⟩
  rw [hc] at h
  have hpull := h.change (t := .pulling) (m := .stateChanged .pulling none none) rfl rfl
  have hstart := hpull.change (t := .starting) (m := .stateChanged .starting none none) rfl rfl
  rw [List.append_assoc] at hstart
  exact hstart

theorem starting_panics (hc : p.container ≠ .assigned) : p.receiveStarting.ending = .panicked := by
  have hinv : validTransitions p.container .pulling = false := by
    cases hp : p.container <;> first | rfl | exact absurd hp hc
  simp [Pod.receiveStarting, Pod.transition, State.transition, hinv]

theorem good_running (h : Progress task p.container told) (hc : p.container = .starting)
    (updatedPod : PodObject) (streaming : Option String) :
    Good told (p.receiveRunning updatedPod streaming) := by
  rw [hc] at h
  cases streaming with
  | some err =>
    have hreact : p.receiveRunning updatedPod (some err) =
        ⟨{ p with container := .running }, [], [], .failed⟩ := by
      simp [Pod.receiveRunning, Pod.transition, hc, State.transition, validTransitions]
    rw [hreact]
    exact .inr ⟨rfl, .starting, by simpa using h, by simp⟩
  | none =>
    obtain ⟨addresses, hreact⟩ : ∃ addresses, p.receiveRunning updatedPod none =
        ⟨{ p with container := .running }, [.stateChanged .running (some addresses) none], [],
          .done⟩ := by
      simp [Pod.receiveRunning, Pod.transition, hc, State.transition, validTransitions]
    rw [hreact]
    exact .inl ⟨rfl, h.change rfl rfl⟩

theorem running_panics (hc : p.container ≠ .starting) (updatedPod : PodObject)
    (streaming : Option String) : (p.receiveRunning updatedPod streaming).ending = .panicked := by
  have hinv : validTransitions p.container .running = false := by
    cases hp : p.container <;> first | rfl | exact absurd hp hc
  simp [Pod.receiveRunning, Pod.transition, State.transition, hinv]

theorem good_terminated (h : Progress task p.container told) (hc : p.container ≠ .terminated)
    (updatedPod : PodObject) : Good told (p.receiveTerminated updatedPod) := by
  unfold Pod.receiveTerminated
  split
  · exact .inr ⟨rfl, by simpa using closable_of_progress h⟩
  · rename_i exit _
    have htr : p.container.transition .terminated = some .terminated := by
      simp [State.transition, valid_terminated hc]
    simp only [Pod.transition, htr]
    exact .inl ⟨rfl, h.change (valid_terminated hc) rfl⟩

theorem getPodState_ne_pulling (u : PodObject) (names : List String) :
    getPodState u names ≠ .ok .pulling := by
  unfold getPodState
  split
  · split
    · simp
    · split <;> simp
  · cases getDeterminedContainersStatus u.containerStatuses names with
    | error e => simp [bind, Except.bind]
    | ok statuses =>
      simp only [bind, Except.bind]
      split
      · simp [pure, Except.pure]
      · split <;> simp [pure, Except.pure]
  · simp
  · simp
  · simp

/-- A status update that the container's state allows is handled well; another one panics. -/
theorem receivePodStatusUpdate_spec (h : Progress task p.container told) (u : PodObject)
    (streaming : Option String) :
    (Orderly p (.podStatusUpdate u streaming) →
      Good told (p.receivePodStatusUpdate u streaming)) ∧
    (¬ Orderly p (.podStatusUpdate u streaming) →
      (p.receivePodStatusUpdate u streaming).ending = .panicked) := by
  simp only [Orderly, Pod.receivePodStatusUpdate]
  cases hu : getPodState u p.containerNames with
  | error e =>
    have hfailed : Good told ⟨p, [], [], .failed⟩ := .inr ⟨rfl, by simpa using closable_of_progress h⟩
    exact ⟨fun _ => hfailed, fun hno => absurd (by simp) hno⟩
  | ok s =>
    have hpull := getPodState_ne_pulling u p.containerNames
    by_cases hs : s = p.container
    · subst hs
      simp only [if_true]
      exact ⟨fun _ => good_idle h, fun hno => absurd ⟨fun heq => .inr (Except.ok.inj heq),
        fun heq => .inr (Except.ok.inj heq)⟩ hno⟩
    · simp only [if_neg hs]
      cases s with
      | assigned => simpa using good_idle h
      | pulling => exact absurd hu hpull
      | terminated => simpa using good_terminated h (Ne.symm hs) u
      | starting =>
        have hne : p.container ≠ .starting := Ne.symm hs
        simp only [reduceCtorEq, Except.ok.injEq, false_implies, true_and, true_implies, hne,
          or_false]
        exact ⟨fun hc => good_starting h hc, fun hc => starting_panics hc⟩
      | running =>
        have hne : p.container ≠ .running := Ne.symm hs
        simp only [reduceCtorEq, Except.ok.injEq, false_implies, and_true, true_implies, hne,
          or_false]
        exact ⟨fun hc => good_running h hc u streaming, fun hc => running_panics hc u streaming⟩

theorem good_log (h : Progress task p.container told) (hc : p.container ≠ .terminated) (text : String)
    (toSelf : List (Letter Message)) : Good told ⟨p, p.receiveContainerLog text, toSelf, .done⟩ :=
  .inl ⟨rfl, h.other hc rfl rfl⟩

theorem good_event (h : Progress task p.container told) (event : PodEvent) :
    Good told ⟨p, p.receivePodEventUpdate event, [], .done⟩ := by
  refine .inl ⟨rfl, ?_⟩
  dsimp only
  unfold Pod.receivePodEventUpdate
  split
  · simpa using h
  · simpa using h
  · rename_i hne
    exact h.other hne rfl rfl

end Updates

/-- An orderly message is handled well. -/
theorem receive_good {p : Pod} {told : List Told} (h : Progress task p.container told) {m : Message}
    (hm : Orderly p m) : Good told (p.receive m) := by
  cases m with
  | podStatusUpdate u streaming => exact (receivePodStatusUpdate_spec h u streaming).1 hm
  | podEventUpdate event => exact good_event h event
  | containerLog text => exact good_log h hm text []
  | killTaskPod =>
    obtain ⟨hcont, hmore⟩ := deleteKubernetesResources_spec p
    refine .inl ⟨rfl, ?_⟩
    simp only [Pod.receive, hcont]
    exact h.append hmore
  | resourceCreationFailed err => exact good_log h hm err [.stop]
  | resourceCreationCancelled => exact .inl ⟨rfl, by simpa [Pod.receive] using h⟩
  | resourceDeletionFailed err => exact .inl ⟨rfl, by simpa [Pod.receive] using h⟩

/-- Any other message panics, or tells the task something after the end. -/
theorem receive_bad {p : Pod} {told : List Told} (h : Progress task p.container told) {m : Message}
    (hm : ¬ Orderly p m) : (p.receive m).ending = .panicked ∨
      (p.receive m).ending = .done ∧ p.container = .terminated ∧
        ∃ x, task.hears x = true ∧ (p.receive m).told = [x] := by
  cases m with
  | podStatusUpdate u streaming => exact .inl ((receivePodStatusUpdate_spec h u streaming).2 hm)
  | containerLog text => exact .inr ⟨rfl, not_not.mp hm, _, rfl, rfl⟩
  | resourceCreationFailed err => exact .inr ⟨rfl, not_not.mp hm, _, rfl, rfl⟩
  | podEventUpdate event => exact absurd trivial hm
  | killTaskPod => exact absurd trivial hm
  | resourceCreationCancelled => exact absurd trivial hm
  | resourceDeletionFailed err => exact absurd trivial hm

/-! ### Runs -/

abbrev PodStep := Live.Step podBehaviour

/-- The pod actor is between two letters. -/
structure Steady (a : Live Pod Message Told) : Prop where
  no_panic : a.panicked = false
  progress : Progress task a.state.container a.told

/-- If the actor takes a message, it is one it can take. -/
def Edge.Orderly (x : Edge (Live Pod Message Told) (Turn Message)) : Prop :=
  x.event = .process → ∀ m, x.pre.next = some m → Kubernetes.Orderly x.pre.state m

theorem steady_close {a : Live Pod Message Told} (hp : a.panicked = false)
    (h : Closable a.state a.told) : Steady (a.close podBehaviour) :=
  ⟨hp, h.postStop⟩

theorem steady_step {a a' : Live Pod Message Told} {e : Turn Message} (h : Steady a)
    (hstep : PodStep a e a') (hG : Edge.Orderly ⟨a, e, a'⟩) : Steady a' := by
  cases e with
  | deliver letter =>
    cases hstep
    exact ⟨by simpa using h.no_panic, by simpa using h.progress⟩
  | process =>
    obtain ⟨rest, hin, rfl⟩ | ⟨m, rest, hin, hcase⟩ := Live.process_cases hstep
    · exact steady_close h.no_panic (closable_of_progress h.progress)
    · have hm : Orderly a.state m := hG rfl m (by simp [Live.next, hin])
      rcases receive_good h.progress hm with ⟨hend, hprog⟩ | ⟨hend, hclose⟩
      · obtain ⟨-, rfl⟩ | ⟨hne, -⟩ := hcase
        · exact ⟨by simp [Live.react, h.no_panic, podBehaviour, hend], hprog⟩
        · exact absurd hend hne
      · obtain ⟨hdone, -⟩ | ⟨-, rfl⟩ := hcase
        · exact absurd (hdone.symm.trans hend) (by decide)
        · exact steady_close (by simp [Live.react, h.no_panic, podBehaviour, hend]) hclose

theorem lawful_iff_step {a a' : Live Pod Message Told} {e : Turn Message} (h : Steady a)
    (hstep : PodStep a e a') : Lawful a' ↔ Edge.Orderly ⟨a, e, a'⟩ := by
  refine ⟨fun hlaw he m hnext => ?_, fun hG => ?_⟩
  · by_contra hm
    cases he
    obtain ⟨rest, hin, -⟩ | ⟨m', rest, hin, hcase⟩ := Live.process_cases hstep
    · simp [Live.next, hin] at hnext
    · obtain rfl : m' = m := by simpa [Live.next, hin] using hnext
      rcases receive_bad h.progress hm with hend | ⟨hend, hterm, x, hx, htold⟩
      · obtain ⟨hdone, -⟩ | ⟨-, rfl⟩ := hcase
        · exact absurd (hdone.symm.trans hend) (by decide)
        · have := hlaw.no_panic
          simp [Live.close, Live.react, podBehaviour, hend] at this
      · obtain ⟨-, rfl⟩ | ⟨hne, -⟩ := hcase
        · have hlast := hlaw.in_order
          simp only [Live.react, podBehaviour, htold] at hlast
          exact (hterm ▸ h.progress).not_inOrder hx hlast
        · exact absurd hend hne
  · have hsteady := steady_step h hstep hG
    exact ⟨hsteady.no_panic, hsteady.progress.inOrder⟩

/-- CORRECT: over the life of a pod actor, whatever it is sent, its container makes only valid
    transitions and the task is told of them in order, with nothing after the end, just if every
    status update that shows the containers running finds the container starting (or running), every
    one that shows them starting finds it assigned (or starting), and no log line is left to forward
    once it has terminated. -/
theorem task_informed_iff {podName : String} {ports : List ℤ} {gpus : ℕ} {leave : Bool}
    {tr : List (Edge (Live Pod Message Told) (Turn Message))} {a : Live Pod Message Told}
    (h : Run PodStep (Live.start (newPod podName ports gpus leave)) tr a) :
    (∀ x ∈ tr, Lawful x.post) ↔ ∀ x ∈ tr, Edge.Orderly x :=
  h.forall_iff (I := Steady) (P := fun x => Lawful x.post) (G := Edge.Orderly)
    (fun _ _ _ hI hst => lawful_iff_step hI hst) (fun _ _ _ hI hst hG => steady_step hI hst hG)
    ⟨rfl, progress_nil⟩

/-! ### Two lives -/

/-- A pod in a phase, with one status of the container that executes the task. -/
def podIn (phase : Phase) (running : Bool) : PodObject :=
  ⟨"pod", false, phase, "10.0.0.1", [⟨"PodScheduled", "True"⟩],
    [⟨"determined-init-container", false, some ⟨0, ""⟩⟩],
    [⟨"determined-container", running, if phase = .succeeded then some ⟨0, ""⟩ else none⟩]⟩

/-- The actor takes each of these updates as it arrives. -/
def watched (updates : List PodObject) : List (Turn Message) :=
  updates.flatMap fun u => [.deliver (.msg (.podStatusUpdate u none)), .process]

/-- The life of a pod whose updates are those, up to a summary. -/
theorem exists_watched {α : Type} (updates : List PodObject) (summary : Live Pod Message Told → α)
    (v : α) (h : (exec (Live.turn podBehaviour) (Live.start (newPod "pod" [8080] 1 false))
      (watched updates)).map (fun r => summary r.2) = some v) :
    ∃ tr a, Run PodStep (Live.start (newPod "pod" [8080] 1 false)) tr a ∧
      tr.map (·.event) = watched updates ∧ summary a = v :=
  Run.exists_of_exec (fun _ _ _ => id) (fun r => summary r.2) h

/-- The task of a pod that is scheduled, runs and succeeds is told so. -/
theorem task_informed_iff_three_updates : ∃ tr a,
    Run PodStep (Live.start (newPod "pod" [8080] 1 false)) tr a ∧
      task.reported a.told = [.pulling, .starting, .running, .terminated] ∧
      ((∀ x ∈ tr, Lawful x.post) ↔ ∀ x ∈ tr, Edge.Orderly x) := by
  obtain ⟨tr, a, hrun, -, htold⟩ := exists_watched
    [podIn .pending false, podIn .running true, podIn .succeeded false]
    (fun a => task.reported a.told) [.pulling, .starting, .running, .terminated] (by decide +kernel)
  exact ⟨tr, a, hrun, htold, task_informed_iff hrun⟩

/-- If the watch shows the pod for the first time when it already runs, the actor panics. -/
theorem skipped_update_panics : ∃ tr a,
    Run PodStep (Live.start (newPod "pod" [8080] 1 false)) tr a ∧
      tr.map (·.event) = watched [podIn .running true] ∧ a.panicked = true ∧ ¬ Lawful a := by
  obtain ⟨tr, a, hrun, hevents, hpanic⟩ := exists_watched [podIn .running true]
    (fun a => a.panicked) true (by decide +kernel)
  exact ⟨tr, a, hrun, hevents, hpanic, fun h => by simp [h.no_panic] at hpanic⟩

end Determined.Kubernetes
