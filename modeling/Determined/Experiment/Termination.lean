import Determined.Experiment.ExperimentActor

/-! How an experiment ends.

    An experiment that has decided to stop finds itself in a stopping state when it does, and from
    there goes to the terminal one (`experiment_terminates`). Between the decision and the stop other
    messages are handled, though, and one of the transitions leads back: an experiment that is stopping
    after an error can be activated, and is then left active with nobody to run it. -/

namespace Determined.Experiment
open Determined.Model Determined.Schemes Determined.Searcher

variable {ι : Type}

/-! ### One message -/

/-- What the handling of a message keeps, from one point in it to another. -/
structure Follows (r r' : ExperimentReaction ι) : Prop where
  stopping : stoppingStates r.state.state = true → stoppingStates r'.state.state = true
  terminal : terminalStates r.state.state = true → terminalStates r'.state.state = true
  decided : (.stop ∈ r.toSelf → stoppingStates r.state.state = true) →
    .stop ∈ r'.toSelf → stoppingStates r'.state.state = true

theorem Follows.refl (r : ExperimentReaction ι) : Follows r r := ⟨id, id, id⟩

theorem Follows.trans {r r' r'' : ExperimentReaction ι} (h : Follows r r') (h' : Follows r' r'') :
    Follows r r'' :=
  ⟨h'.stopping ∘ h.stopping, h'.terminal ∘ h.terminal, fun hr => h'.decided (h.decided hr)⟩

/-- Neither the state nor what the actor told itself has changed. -/
theorem Follows.of_eq {r r' : ExperimentReaction ι} (hs : r'.state.state = r.state.state)
    (ht : r'.toSelf = r.toSelf) : Follows r r' := by
  refine ⟨?_, ?_, ?_⟩ <;> rw [hs]
  · exact id
  · exact id
  · rw [ht]
    exact id

section Handling

variable {r : ExperimentReaction ι}

theorem follows_tell (told : List (Told ι)) : Follows r (tell r told) := .of_eq rfl rfl

theorem follows_stopIfDone (r : ExperimentReaction ι) : Follows r (stopIfDone r) := by
  unfold stopIfDone
  split
  · rename_i hcan
    refine ⟨id, id, fun _ _ => ?_⟩
    rw [canTerminate, Bool.and_eq_true] at hcan
    exact hcan.1
  · exact .refl r

/-- A change of state, unless it activates the experiment after an error or ends it. -/
theorem follows_updateState {s : State} (ha : ¬ (r.state.state = .stoppingError ∧ s = .active))
    (ht : ¬ (stoppingStates r.state.state = true ∧ terminalStates s = true)) :
    Follows r (updateState r s).1 := by
  unfold updateState
  split
  · exact .refl r
  · exact .refl r
  · rename_i htransition
    have hvalid : experimentTransitions r.state.state s = true := by
      unfold State.transition at htransition
      split at htransition
      · cases htransition
      · split at htransition
        · assumption
        · cases htransition
    refine Follows.trans ?_ (follows_stopIfDone _)
    have hstopping : stoppingStates r.state.state = true → stoppingStates s = true := by
      intro hs
      rcases stopping_transition hs hvalid with rfl | hterm | ⟨herr, hact⟩
      · rfl
      · exact absurd ⟨hs, hterm⟩ ht
      · exact absurd ⟨herr, hact⟩ ha
    refine ⟨hstopping, fun hterm => ?_, fun hr hmem => hstopping (hr hmem)⟩
    rw [terminal_transition hterm] at hvalid
    cases hvalid

/-- A change to a stopping state. -/
theorem follows_stopping {s : State} (hs : stoppingStates s = true) :
    Follows r (updateState r s).1 := by
  refine follows_updateState ?_ ?_
  · rintro ⟨-, rfl⟩
    cases hs
  · rintro ⟨-, hterm⟩
    cases s <;> simp_all [stoppingStates, terminalStates]

theorem follows_killTrials (r : ExperimentReaction ι) : Follows r (killTrials r) := follows_tell _

theorem follows_request {s : State} {andThen : ExperimentReaction ι → ExperimentReaction ι}
    (hs : Follows r (updateState r s).1) (hthen : ∀ r, Follows r (andThen r)) :
    Follows r (request r s andThen) := by
  unfold request
  dsimp only
  split
  · exact (hs.trans (follows_tell _)).trans (hthen _)
  · exact hs.trans (follows_tell _)

theorem follows_stopRequest (r : ExperimentReaction ι) : Follows r (stopRequest r) := by
  unfold stopRequest
  split
  · exact follows_tell _
  · exact follows_request (follows_stopping rfl) follows_killTrials

variable [DecidableEq ι]

theorem follows_createTrial (requestID : ι) : Follows r (createTrial r requestID) := by
  unfold createTrial
  split
  · exact .refl r
  · exact .of_eq rfl rfl

theorem follows_processOperation {answers : Answers ι} {acc : ExperimentReaction ι × Bool}
    (op : Operation ι) : Follows acc.1 (processOperation answers acc op).1 := by
  unfold processOperation
  split
  · cases op with
    | create create =>
      dsimp only
      split
      · split
        · exact follows_createTrial _
        · exact follows_stopping rfl
      · exact follows_createTrial _
    | runnable op => exact .refl _
    | close requestID => exact .refl _
    | shutdown failure => cases failure <;> exact follows_stopping rfl
  · exact .refl _

theorem follows_foldl (answers : Answers ι) (ops : List (Operation ι)) :
    ∀ acc : ExperimentReaction ι × Bool,
      Follows acc.1 (ops.foldl (processOperation answers) acc).1 := by
  induction ops with
  | nil => exact fun acc => .refl _
  | cons op ops ih => exact fun acc => (follows_processOperation op).trans (ih _)

theorem follows_relayOperations (ops : List (Operation ι)) : Follows r (relayOperations r ops) := by
  unfold relayOperations
  dsimp only
  split
  · exact follows_tell _
  · exact .of_eq rfl rfl

omit [DecidableEq ι] in
theorem follows_commitEvents (answers : Answers ι) : Follows r (commitEvents r answers) := by
  unfold commitEvents
  split
  · exact .refl r
  · exact follows_stopping rfl

theorem follows_processOperations (answers : Answers ι) (reply : Except Fault (List (Operation ι))) :
    Follows r (processOperations r answers reply) := by
  unfold processOperations
  split
  · exact .of_eq rfl rfl
  · split
    · exact .refl r
    · exact follows_stopping rfl
  · rename_i ops
    split
    · exact .refl r
    · have hops := follows_foldl answers ops (r, true)
      dsimp only
      split
      · have hrelay := hops.trans (follows_relayOperations ops)
        split
        · exact hrelay
        · exact hrelay.trans (follows_commitEvents answers)
      · exact hops

theorem follows_trialClosed (child : ι) (answers : Answers ι) :
    Follows r (trialClosed r child answers) := by
  have hremoved : Follows r { r with
      state := { r.state with children := r.state.children.erase child } } := .of_eq rfl rfl
  have hprocessed := hremoved.trans (follows_processOperations answers answers.reply)
  unfold trialClosed
  dsimp only
  split
  · exact hprocessed
  · exact hprocessed.trans (follows_stopIfDone _)

end Handling

/-- The message does not activate an experiment that is stopping after an error. -/
def Message.lasting (e : ExperimentActor ι) : Message ι → Prop
  | .activateExperimentRequest => e.state ≠ .stoppingError
  | .state target => ¬ (e.state = .stoppingError ∧ target = .active)
  | _ => True

/-- The message sets a terminal state. -/
def Message.ends : Message ι → Prop
  | .state target => terminalStates target = true
  | _ => False

variable [DecidableEq ι]

theorem follows_receive {e : ExperimentActor ι} {m : Message ι} (hl : m.lasting e)
    (he : ¬ (stoppingStates e.state = true ∧ m.ends)) : Follows (begin e) (receive e m) := by
  cases m with
  | trialCompletedWorkload answers responds =>
    rw [receive]
    split
    · exact follows_processOperations _ _
    · exact (follows_processOperations answers (.ok [])).trans (.of_eq rfl rfl)
  | sendNextWorkload => exact follows_tell _
  | childFailed child answers => exact follows_trialClosed _ _
  | childStopped child answers => exact follows_trialClosed _ _
  | restoreTrials => exact follows_tell _
  | trialsRestored => exact .of_eq rfl rfl
  | state target => exact follows_updateState hl he
  | killExperiment =>
    rw [receive]
    split
    · exact (follows_stopping rfl).trans (follows_killTrials _)
    · exact follows_killTrials _
  | activateExperimentRequest =>
    refine follows_request (follows_updateState (fun h => hl h.1) ?_) .refl
    rintro ⟨-, h⟩
    cases h
  | pauseExperimentRequest =>
    refine follows_request (follows_updateState ?_ ?_) .refl
    · rintro ⟨-, h⟩
      cases h
    · rintro ⟨-, h⟩
      cases h
  | cancelExperimentRequest => exact follows_stopRequest _
  | killExperimentRequest => exact follows_stopRequest _
  | _ => exact follows_processOperations _ _

/-- Ending an experiment that is stopping is the end of it. -/
theorem receive_ends {e : ExperimentActor ι} {m : Message ι} (hs : stoppingStates e.state = true)
    (he : m.ends) : .stop ∉ (receive e m).toSelf ∧ (receive e m).ending = .done ∧
      (stoppingStates (receive e m).state.state = true ∨
        terminalStates (receive e m).state.state = true) := by
  cases m with
  | state target =>
    have hterm : stoppingStates target = false := by
      cases target <;> simp_all [Message.ends, terminalStates, stoppingStates]
    rw [receive, updateState]
    split
    · exact ⟨by simp [begin], rfl, .inl hs⟩
    · exact ⟨by simp [begin], rfl, .inl hs⟩
    · dsimp only
      rw [stopIfDone, if_neg (by simp [canTerminate, tell, hterm])]
      exact ⟨by simp [tell, begin], rfl, .inr he⟩
  | _ => cases he

/-! ### Stopping -/

omit [DecidableEq ι] in
theorem postStop_stopping {e : ExperimentActor ι} (saved : Bool)
    (h : stoppingStates e.state = true) : terminalStates (postStop saved e).1.state = true := by
  have hflushed : stoppingStates
      (if saved then begin e else (updateState (begin e) .stoppingError).1).state.state = true := by
    split
    · exact h
    · exact (follows_stopping rfl).stopping h
  unfold postStop
  generalize (if saved then begin e else (updateState (begin e) .stoppingError).1) = r at hflushed ⊢
  obtain ⟨hterm, htransition⟩ := transition_terminal hflushed r.state.id
  dsimp only
  rw [htransition]
  exact hterm

omit [DecidableEq ι] in
theorem postStop_terminal {e : ExperimentActor ι} (saved : Bool)
    (h : terminalStates e.state = true) : terminalStates (postStop saved e).1.state = true := by
  have hflushed : terminalStates
      (if saved then begin e else (updateState (begin e) .stoppingError).1).state.state = true := by
    split
    · exact h
    · exact (follows_stopping rfl).terminal h
  unfold postStop
  generalize (if saved then begin e else (updateState (begin e) .stoppingError).1) = r at hflushed ⊢
  dsimp only
  split
  · rename_i htransition
    cases hs : r.state.state <;> rw [hs] at hflushed htransition <;>
      simp_all [terminalStates, stoppingToTerminalStates, State.transition, experimentTransitions]
  · exact hflushed

/-- The experiment is stopping or has ended: it is neither active nor paused. -/
def leaving (s : State) : Bool := stoppingStates s || terminalStates s

omit [DecidableEq ι] in
theorem postStop_leaving {e : ExperimentActor ι} (saved : Bool) (h : leaving e.state = true) :
    leaving (postStop saved e).1.state = true := by
  rw [leaving, Bool.or_eq_true] at h ⊢
  rcases h with h | h
  · exact .inr (postStop_stopping saved h)
  · exact .inr (postStop_terminal saved h)

/-! ### Runs -/

abbrev LiveExperiment (ι : Type) := Live (ExperimentActor ι) (Message ι) (Told ι)

/-- An experiment about to handle its start. -/
def started (id : ℤ) (state : State) (replaying : Bool) (answers : Answers ι) : LiveExperiment ι :=
  (Live.start ⟨id, state, [], replaying⟩).deliver (.msg (.preStart answers))

/-- Anyone may send it messages, but only the experiment itself decides to stop. -/
def Step (saved : Bool) (l : LiveExperiment ι) (t : Turn (Message ι)) (l' : LiveExperiment ι) :
    Prop :=
  t ≠ .deliver .stop ∧ Live.Step (experimentBehaviour saved) l t l'

/-- The experiment as `PostStop` finds it if this turn is its last. -/
def last (l : LiveExperiment ι) : ExperimentActor ι :=
  match l.inbox with
  | .msg m :: _ => (receive l.state m).state
  | _ => l.state

/-- A step never leads back from stopping, and the stop that was decided on finds the experiment in a
    stopping state and leaves it in a terminal one. -/
structure Final (x : Edge (LiveExperiment ι) (Turn (Message ι))) : Prop where
  lasting : leaving x.pre.state.state = true → leaving x.post.state.state = true
  ends : x.pre.closed = false → x.post.closed = true → .stop ∈ x.pre.inbox →
    stoppingStates (last x.pre).state = true ∧ terminalStates x.post.state.state = true

omit [DecidableEq ι] in
/-- The message handled does not activate an experiment that is stopping after an error, and if the
    experiment has decided to stop, does not set a terminal state. -/
def Edge.Lasting (x : Edge (LiveExperiment ι) (Turn (Message ι))) : Prop :=
  x.event = .process → ∀ m, x.pre.next = some m →
    m.lasting x.pre.state ∧ (.stop ∈ x.pre.inbox → ¬ m.ends)

/-- The experiment has only decided to stop if it is stopping. -/
def Settled (l : LiveExperiment ι) : Prop :=
  .stop ∈ l.inbox → stoppingStates l.state.state = true

theorem leaving_receive {e : ExperimentActor ι} {m : Message ι} (hl : m.lasting e)
    (h : leaving e.state = true) : leaving (receive e m).state.state = true := by
  by_cases he : stoppingStates e.state = true ∧ m.ends
  · obtain ⟨-, -, hr⟩ := receive_ends he.1 he.2
    rwa [leaving, Bool.or_eq_true]
  · have hf := follows_receive hl he
    rw [leaving, Bool.or_eq_true] at h ⊢
    rcases h with h | h
    · exact .inl (hf.stopping h)
    · exact .inr (hf.terminal h)

theorem settled_step {saved : Bool} {l l' : LiveExperiment ι} {t : Turn (Message ι)}
    (h : Settled l) (hst : Step saved l t l') (hG : Edge.Lasting ⟨l, t, l'⟩) :
    Final ⟨l, t, l'⟩ ∧ Settled l' := by
  obtain ⟨hstop, hst⟩ := hst
  cases t with
  | deliver letter =>
    cases hst
    refine ⟨⟨fun hs => by simpa using hs, fun hopen hclosed => ?_⟩, fun hmem => ?_⟩
    · rw [Live.deliver_closed, hopen] at hclosed
      cases hclosed
    · rw [Live.deliver_state]
      refine h ?_
      unfold Live.deliver at hmem
      split at hmem
      · exact hmem
      · rcases List.mem_append.mp hmem with hmem | hmem
        · exact hmem
        · rw [List.mem_singleton] at hmem
          exact absurd (congrArg Turn.deliver hmem.symm) hstop
  | process =>
    obtain ⟨rest, hin, rfl⟩ | ⟨m, rest, hin, hcase⟩ := Live.process_cases hst
    · have hs : stoppingStates l.state.state = true := h (by rw [hin]; exact List.mem_cons_self ..)
      have hend := postStop_stopping saved hs
      refine ⟨⟨fun _ => ?_, fun _ _ _ => ⟨?_, hend⟩⟩, fun hmem => by cases hmem⟩
      · rw [leaving, Bool.or_eq_true]
        exact .inr hend
      · rw [last, hin]
        exact hs
    · obtain ⟨hl, he⟩ := hG rfl m (by simp [Live.next, hin])
      have hleaving := leaving_receive hl (e := l.state)
      have hlast : last l = (receive l.state m).state := by rw [last, hin]
      obtain ⟨-, rfl⟩ | ⟨-, rfl⟩ := hcase
      · refine ⟨⟨hleaving, fun hopen hclosed => ?_⟩, fun hmem => ?_⟩
        · rw [Live.react, hopen] at hclosed
          cases hclosed
        · have hmem : .stop ∈ rest ++ (receive l.state m).toSelf := hmem
          have hrest : .stop ∈ rest → .stop ∈ l.inbox := fun h => by
            rw [hin]
            exact List.mem_cons_of_mem _ h
          by_cases hends : stoppingStates l.state.state = true ∧ m.ends
          · rcases List.mem_append.mp hmem with hmem | hmem
            · exact absurd hends.2 (he (hrest hmem))
            · exact absurd hmem (receive_ends hends.1 hends.2).1
          · have hf := follows_receive hl hends
            rcases List.mem_append.mp hmem with hmem | hmem
            · exact hf.stopping (h (hrest hmem))
            · exact hf.decided (fun hnone => by cases hnone) hmem
      · refine ⟨⟨fun hs => postStop_leaving saved (hleaving hs), fun _ _ hmem => ?_⟩,
          fun hmem => by cases hmem⟩
        have hs := (follows_receive hl fun hends => he hmem hends.2).stopping (h hmem)
        exact ⟨hlast ▸ hs, postStop_stopping saved hs⟩

/-- CORRECT: in every run of an experiment in which no request activates it while it is stopping after
    an error, and none sets a terminal state once it has decided to stop, a stopping experiment never
    becomes active or paused again, and the stop it decided on finds it in a stopping state and leaves
    it completed, canceled or failed. -/
theorem experiment_terminates {saved : Bool} {id : ℤ} {state : State} {replaying : Bool}
    {answers : Answers ι} {tr : List (Edge (LiveExperiment ι) (Turn (Message ι)))}
    {l : LiveExperiment ι} (h : Run (Step saved) (started id state replaying answers) tr l)
    (hG : ∀ x ∈ tr, Edge.Lasting x) : ∀ x ∈ tr, Final x := by
  have hstart : Settled (started id state replaying answers) := by
    intro hmem
    rcases List.mem_singleton.mp hmem
  have hsettled := (h.guarded (fun _ _ _ hI hst hG => (settled_step hI hst hG).2) hstart hG).1
  intro x hx
  exact (settled_step (hsettled x hx).1 (h.step x hx) (hG x hx)).1

/-! ### Two runs -/

/-- The searcher answers with these operations, and the events are saved. -/
def replies (reply : Except Fault (List (Operation ℕ))) : Answers ℕ :=
  ⟨reply, fun _ => true, fun _ => true, true⟩

/-- A turn in the life of an experiment, if it can take place. -/
def turn (saved : Bool) (l : LiveExperiment ℕ) : Turn (Message ℕ) → Option (LiveExperiment ℕ)
  | .deliver .stop => none
  | t => l.turn (experimentBehaviour saved) t

theorem step_of_turn {saved : Bool} {l l' : LiveExperiment ℕ} {t : Turn (Message ℕ)}
    (h : turn saved l t = some l') : Step saved l t l' := by
  cases t with
  | deliver letter =>
    cases letter with
    | msg m => exact ⟨nofun, h⟩
    | stop => cases h
  | process => exact ⟨nofun, h⟩

/-- An experiment with one trial, and what happens to it. -/
def oneTrialRun (turns : List (Turn (Message ℕ))) :
    Option (List (Edge (LiveExperiment ℕ) (Turn (Message ℕ))) × LiveExperiment ℕ) :=
  exec (turn true) (started 1 .active false (replies (.ok [.create ⟨7, none⟩]))) turns

/-- The message is no request for a state. -/
def Message.undemanding : Message ℕ → Bool
  | .state _ | .activateExperimentRequest => false
  | _ => true

theorem lasting_of_undemanding {x : Edge (LiveExperiment ℕ) (Turn (Message ℕ))}
    (h : x.pre.next.all Message.undemanding = true) : Edge.Lasting x := by
  intro _ m hm
  rw [hm] at h
  cases m with
  | state target => cases h
  | activateExperimentRequest => cases h
  | _ => exact ⟨trivial, fun _ => id⟩

/-- The experiment is canceled, and its trial stops. -/
theorem experiment_terminates_canceled : ∃ tr l,
    Run (Step true) (started 1 .active false (replies (.ok [.create ⟨7, none⟩]))) tr l ∧
      l.closed = true ∧ l.state.state = .canceled ∧ ∀ x ∈ tr, Final x := by
  obtain ⟨tr, l, hrun, -, hsum⟩ := Run.exists_of_exec (fun _ _ _ => step_of_turn)
    (fun p => (p.2.closed, p.2.state.state, p.1.all fun x => x.pre.next.all Message.undemanding))
    (v := (true, .canceled, true)) (show (oneTrialRun [.process,
      .deliver (.msg .cancelExperimentRequest), .process,
      .deliver (.msg (.childStopped 7 (replies (.ok [])))), .process, .process]).map _ = _ by
        decide +kernel)
  simp only [Prod.mk.injEq, List.all_eq_true] at hsum
  obtain ⟨hclosed, hstate, hmild⟩ := hsum
  exact ⟨tr, l, hrun, hclosed, hstate,
    experiment_terminates hrun fun x hx => lasting_of_undemanding (hmild x hx)⟩

/-- The searcher fails on a validation without its metric. When the trial has stopped, the experiment
    decides to stop; but a request to activate it has arrived before that. It stops active. -/
theorem activated_while_stopping : ∃ tr l,
    Run (Step true) (started 1 .active false (replies (.ok [.create ⟨7, none⟩]))) tr l ∧
      l.closed = true ∧ l.state.state = .active ∧ ¬ ∀ x ∈ tr, Final x := by
  obtain ⟨tr, l, hrun, -, hsum⟩ := Run.exists_of_exec (fun _ _ _ => step_of_turn)
    (fun p => (p.2.closed, p.2.state.state,
      p.1.any fun x => leaving x.pre.state.state && !leaving x.post.state.state))
    (v := (true, .active, true)) (show (oneTrialRun [.process,
      .deliver (.msg (.trialCompletedOperation (replies (.error (.error "metric not found"))))),
      .process, .deliver (.msg (.childStopped 7 (replies (.ok [])))),
      .deliver (.msg .activateExperimentRequest), .process, .process, .process]).map _ = _ by
        decide +kernel)
  simp only [Prod.mk.injEq, List.any_eq_true, Bool.and_eq_true, Bool.not_eq_true'] at hsum
  obtain ⟨hclosed, hstate, x, hx, hbefore, hafter⟩ := hsum
  refine ⟨tr, l, hrun, hclosed, hstate, fun hall => ?_⟩
  have := (hall x hx).lasting hbefore
  rw [hafter] at this
  cases this

end Determined.Experiment
