import Determined.Keras.StatefulCallbacks

/-! How the stateful callbacks resume: the learning rate is reduced as if training had never been
    interrupted, but early stopping forgets the best metric. -/

namespace Determined.Keras

variable {W : Type}

/-! ### Better metrics -/

/-- One best metric is at least as good as another one. -/
def EarlyStoppingArgs.at_least (args : EarlyStoppingArgs) (best other : Best) : Prop :=
  if args.greater then other ≤ best else best ≤ other

variable {args : EarlyStoppingArgs} {current : ℚ} {best other : Best}

theorem at_least_refl (args : EarlyStoppingArgs) (best : Best) : args.at_least best best := by
  rw [EarlyStoppingArgs.at_least]
  split_ifs <;> exact le_rfl

/-- What improves on a metric improves on one that is no better. -/
theorem improves_of_at_least (h : args.at_least best other) (hbest : args.improves current best) :
    args.improves current other := by
  rw [EarlyStoppingArgs.at_least] at h
  rw [EarlyStoppingArgs.improves] at hbest ⊢
  split_ifs at h hbest ⊢
  · exact h.trans_lt hbest
  · exact hbest.trans_le h

/-- A metric that improves on the best one is at least as good as what that one improved on. -/
theorem at_least_of_improves (h : args.at_least best other) (hbest : args.improves current best) :
    args.at_least (current : Best) other := by
  have habs := abs_nonneg args.min_delta
  rw [EarlyStoppingArgs.at_least] at h ⊢
  rw [EarlyStoppingArgs.improves] at hbest
  split_ifs at h hbest ⊢
  · have hle : ((current - |args.min_delta| : ℚ) : Best) ≤ (current : Best) :=
      WithBotTop.coe_le_coe.mpr (sub_le_self current habs)
    exact h.trans (hbest.le.trans hle)
  · have hle : (current : Best) ≤ ((current + |args.min_delta| : ℚ) : Best) :=
      WithBotTop.coe_le_coe.mpr (le_add_of_nonneg_right habs)
    exact hle.trans (hbest.le.trans h)

/-! ### The best metric of a training -/

/-- The best metric, once `e` has happened. -/
def EarlyStoppingArgs.best_after (args : EarlyStoppingArgs) (best : Best) :
    CallbackEvent W → Best
  | .test_end (some current) _ => if args.improves current best then (current : Best) else best
  | _ => best

/-- The best metric of all the validations so far. -/
def EarlyStoppingArgs.best_of (args : EarlyStoppingArgs) (events : List (CallbackEvent W)) : Best :=
  events.foldl args.best_after args.initial_best

/-- No metric improves on what the best metric starts from. -/
def EarlyStoppingArgs.Unimproved (args : EarlyStoppingArgs) (events : List (CallbackEvent W)) :
    Prop :=
  ∀ current weights, CallbackEvent.test_end (some current) weights ∈ events →
    ¬args.improves current args.initial_best

/-- There was a restart, and no metric since has improved on what the best metric starts from. -/
def EarlyStoppingArgs.Forgets (args : EarlyStoppingArgs) (events : List (CallbackEvent W)) : Prop :=
  ∃ trained quiet, events = trained ++ .restart :: quiet ∧ args.Unimproved quiet

/-- After every restart, the first metric that improves on what the best metric starts from also
    improves on the best metric of the whole training. -/
def EarlyStoppingArgs.RegainsBest (args : EarlyStoppingArgs) (events : List (CallbackEvent W)) :
    Prop :=
  ∀ before current weights after, events = before ++ .test_end (some current) weights :: after →
    args.Forgets before → args.improves current args.initial_best →
      args.improves current (args.best_of before)

theorem best_of_snoc (events : List (CallbackEvent W)) (e : CallbackEvent W) :
    args.best_of (events ++ [e]) = args.best_after (args.best_of events) e := by
  rw [EarlyStoppingArgs.best_of, EarlyStoppingArgs.best_of, List.foldl_append]
  rfl

theorem best_of_at_least (events : List (CallbackEvent W)) :
    args.at_least (args.best_of events) args.initial_best := by
  induction events using List.reverseRecOn with
  | nil => exact at_least_refl args _
  | append_singleton events e ih =>
    rw [best_of_snoc]
    rcases e with ⟨_ | current, weights⟩ | _
    · exact ih
    · rw [EarlyStoppingArgs.best_after]
      split_ifs with hbest
      · exact at_least_of_improves ih hbest
      · exact ih
    · exact ih

theorem forgets_restart (events : List (CallbackEvent W)) : args.Forgets (events ++ [.restart]) :=
  ⟨events, [], rfl, fun _ _ hmem => absurd hmem List.not_mem_nil⟩

theorem forgets_snoc_iff {events : List (CallbackEvent W)} {current : Option ℚ} {weights : W} :
    args.Forgets (events ++ [.test_end current weights]) ↔ args.Forgets events ∧
      ∀ c, current = some c → ¬args.improves c args.initial_best := by
  constructor
  · rintro ⟨trained, quiet, heq, hquiet⟩
    rcases quiet.eq_nil_or_concat' with rfl | ⟨quiet, e, rfl⟩
    · have hlast := congrArg List.getLast? heq
      simp at hlast
    · rw [← List.cons_append, ← List.append_assoc] at heq
      obtain ⟨rfl, hlast⟩ := List.append_inj' heq rfl
      obtain rfl := List.singleton_inj.mp hlast
      refine ⟨⟨trained, quiet, rfl, fun c w hmem => hquiet c w (List.mem_append_left _ hmem)⟩, ?_⟩
      rintro c rfl
      exact hquiet c weights (List.mem_append_right _ (List.mem_singleton.mpr rfl))
  · rintro ⟨⟨trained, quiet, rfl, hquiet⟩, hcurrent⟩
    refine ⟨trained, quiet ++ [.test_end current weights], by simp, fun c w hmem => ?_⟩
    rcases List.mem_append.mp hmem with hmem | hmem
    · exact hquiet c w hmem
    · cases List.mem_singleton.mp hmem
      exact hcurrent c rfl

/-! ### One event -/

section Events

variable {base : BaseEarlyStopping W}

theorem get_state_documented {S : Type} {cb_name var : String} {savable extra rest : List String}
    (h : var ∈ savable ∨ var ∈ extra) (state : S) :
    tf_keras_callback_get_state cb_name savable extra (var :: rest) state = .ok (some state) := by
  rw [tf_keras_callback_get_state, if_neg]
  exact fun hnone => h.elim hnone.1 hnone.2

/-- All that a restart changes is the best metric. -/
theorem EarlyStopping.resume_eq (hbase : base.Documented) (cb : EarlyStopping W) :
    EarlyStopping.resume base cb = .ok { cb with best := cb.args.initial_best } := by
  obtain ⟨var, rest, hvars, hknown⟩ := hbase.vars
  obtain ⟨best_weights, hbegin⟩ := hbase.on_train_begin (EarlyStopping.new cb.args)
  rw [EarlyStopping.resume, EarlyStopping.get_state, hvars, get_state_documented hknown, hbegin]
  rfl

theorem EarlyStopping.on_test_end_none (hbase : base.Documented) (cb : EarlyStopping W) (weights : W) :
    EarlyStopping.on_test_end base cb none weights =
      ({ cb with test_end_count := cb.test_end_count + 1 }, ⟨cb.wait, false, none⟩) := by
  rw [EarlyStopping.on_test_end, hbase.unknown]

theorem EarlyStopping.on_test_end_better (hbase : base.Documented) {cb : EarlyStopping W} (weights : W)
    (h : cb.args.improves current cb.best) :
    EarlyStopping.on_test_end base cb (some current) weights = ({ cb with
      best := (current : Best)
      wait := 0
      best_weights := if cb.restore_best_weights then some weights else cb.best_weights
      test_end_count := cb.test_end_count + 1 }, ⟨0, false, none⟩) := by
  rw [EarlyStopping.on_test_end, hbase.better _ _ _ _ h]

theorem EarlyStopping.on_test_end_worse (hbase : base.Documented) {cb : EarlyStopping W} (weights : W)
    (h : ¬cb.args.improves current cb.best) :
    EarlyStopping.on_test_end base cb (some current) weights = ({ cb with
      wait := cb.wait + 1
      stopped_epoch := if cb.args.patience ≤ cb.wait + 1 then cb.test_end_count else cb.stopped_epoch
      test_end_count := cb.test_end_count + 1 },
      ⟨cb.wait + 1, decide (cb.args.patience ≤ cb.wait + 1),
        if cb.args.patience ≤ cb.wait + 1 ∧ cb.restore_best_weights then cb.best_weights else none⟩) := by
  by_cases hstop : cb.args.patience ≤ cb.wait + 1
  · rw [EarlyStopping.on_test_end, hbase.stops _ _ _ _ h hstop]
    simp [hstop]
  · rw [EarlyStopping.on_test_end, hbase.worse _ _ _ _ h (not_le.mp hstop)]
    simp [hstop]

end Events

/-! ### Whole trainings -/

section Trainings

variable {base : BaseEarlyStopping W}

theorem EarlyStopping.decisions_ok (hbase : base.Documented) (cb : EarlyStopping W)
    (events : List (CallbackEvent W)) :
    ∃ ds, EarlyStopping.decisions base cb events = .ok ds := by
  induction events generalizing cb with
  | nil => exact ⟨[], rfl⟩
  | cons e events ih =>
    cases e with
    | test_end current weights =>
      obtain ⟨ds, hds⟩ := ih (EarlyStopping.on_test_end base cb current weights).1
      rw [EarlyStopping.decisions, hds]
      exact ⟨_, rfl⟩
    | restart =>
      obtain ⟨ds, hds⟩ := ih { cb with best := cb.args.initial_best }
      rw [EarlyStopping.decisions, EarlyStopping.resume_eq hbase]
      exact ⟨ds, hds⟩

/-- The same decisions from here on are the same decision now and the same ones after it. -/
theorem EarlyStopping.decisions_cons_iff (hbase : base.Documented) {cb cb' : EarlyStopping W}
    {current : Option ℚ} {weights : W} {events events' : List (CallbackEvent W)} :
    EarlyStopping.decisions base cb (.test_end current weights :: events) =
        EarlyStopping.decisions base cb' (.test_end current weights :: events') ↔
      (EarlyStopping.on_test_end base cb current weights).2 =
          (EarlyStopping.on_test_end base cb' current weights).2 ∧
        EarlyStopping.decisions base (EarlyStopping.on_test_end base cb current weights).1 events =
          EarlyStopping.decisions base (EarlyStopping.on_test_end base cb' current weights).1 events' := by
  obtain ⟨ds, hds⟩ := EarlyStopping.decisions_ok hbase
    (EarlyStopping.on_test_end base cb current weights).1 events
  obtain ⟨ds', hds'⟩ := EarlyStopping.decisions_ok hbase
    (EarlyStopping.on_test_end base cb' current weights).1 events'
  rw [EarlyStopping.decisions, EarlyStopping.decisions, hds, hds']
  change Except.ok (_ :: ds) = Except.ok (_ :: ds') ↔ _
  rw [Except.ok.injEq, Except.ok.injEq, List.cons.injEq]

/-- Where the interrupted training is, beside the one that is not: only the best metric may differ,
    and if it was forgotten, it is the initial one. -/
structure Beside (args : EarlyStoppingArgs) (before : List (CallbackEvent W))
    (cb cb' : EarlyStopping W) : Prop where
  args_eq : cb.args = args
  wait : 0 ≤ cb.wait
  best : cb.best = args.best_of before
  same : cb' = { cb with best := cb'.best }
  forgets : args.Forgets before → cb'.best = args.initial_best
  knows : ¬args.Forgets before → cb'.best = cb.best

variable {before : List (CallbackEvent W)} {cb cb' : EarlyStopping W}

theorem Beside.restart (h : Beside args before cb cb') :
    Beside args (before ++ [.restart]) cb { cb' with best := cb'.args.initial_best } := by
  have hargs : cb'.args = args := by rw [h.same]; exact h.args_eq
  refine ⟨h.args_eq, h.wait, ?_, ?_, fun _ => by rw [hargs], fun hno => ?_⟩
  · rw [best_of_snoc]
    exact h.best
  · rw [h.same]
  · exact absurd (forgets_restart before) hno

/-- Without a metric nothing is decided. -/
theorem Beside.unknown (hbase : base.Documented) (h : Beside args before cb cb') (weights : W) :
    (EarlyStopping.on_test_end base cb' none weights).2 =
        (EarlyStopping.on_test_end base cb none weights).2 ∧
      Beside args (before ++ [.test_end none weights])
        (EarlyStopping.on_test_end base cb none weights).1
        (EarlyStopping.on_test_end base cb' none weights).1 := by
  rw [EarlyStopping.on_test_end_none hbase, EarlyStopping.on_test_end_none hbase]
  have hforgets : args.Forgets (before ++ [.test_end none weights]) ↔ args.Forgets before :=
    forgets_snoc_iff.trans (and_iff_left fun _ hc => by cases hc)
  refine ⟨by rw [h.same], h.args_eq, h.wait, ?_, by rw [h.same], fun hyes => ?_, fun hno => ?_⟩
  · rw [best_of_snoc]
    exact h.best
  · exact h.forgets (hforgets.mp hyes)
  · exact h.knows (hno ∘ hforgets.mpr)

/-- Both make the same decision about a metric, unless it improves on the initial best metric alone
    and the best one was forgotten. -/
theorem Beside.metric (hbase : base.Documented) (h : Beside args before cb cb') (current : ℚ)
    (weights : W) :
    ((EarlyStopping.on_test_end base cb' (some current) weights).2 =
        (EarlyStopping.on_test_end base cb (some current) weights).2 ↔
      (args.Forgets before → args.improves current args.initial_best →
        args.improves current (args.best_of before))) ∧
      ((args.Forgets before → args.improves current args.initial_best →
        args.improves current (args.best_of before)) →
      Beside args (before ++ [.test_end (some current) weights])
        (EarlyStopping.on_test_end base cb (some current) weights).1
        (EarlyStopping.on_test_end base cb' (some current) weights).1) := by
  have hargs : cb'.args = args := by rw [h.same]; exact h.args_eq
  by_cases hbest : args.improves current (args.best_of before)
  · -- It improves on either best metric, which is then the same.
    have hbest' : cb'.args.improves current cb'.best := by
      rw [hargs]
      by_cases hf : args.Forgets before
      · rw [h.forgets hf]
        exact improves_of_at_least (best_of_at_least before) hbest
      · rw [h.knows hf, h.best]
        exact hbest
    have hinit : args.improves current args.initial_best :=
      improves_of_at_least (best_of_at_least before) hbest
    rw [EarlyStopping.on_test_end_better hbase weights hbest',
      EarlyStopping.on_test_end_better hbase weights (by rw [h.args_eq, h.best]; exact hbest)]
    refine ⟨⟨fun _ _ _ => hbest, fun _ => rfl⟩, fun _ => ⟨h.args_eq, le_rfl, ?_, ?_, fun hf => ?_,
      fun _ => rfl⟩⟩
    · rw [best_of_snoc, EarlyStoppingArgs.best_after, if_pos hbest]
    · rw [h.same]
    · exact absurd hinit ((forgets_snoc_iff.mp hf).2 current rfl)
  · have hworse := EarlyStopping.on_test_end_worse hbase weights
      (show ¬cb.args.improves current cb.best by rw [h.args_eq, h.best]; exact hbest)
    by_cases hregain : args.Forgets before ∧ args.improves current args.initial_best
    · -- The wait is over only where the best metric was forgotten.
      have hbest' : cb'.args.improves current cb'.best := by
        rw [hargs, h.forgets hregain.1]
        exact hregain.2
      rw [EarlyStopping.on_test_end_better hbase weights hbest', hworse]
      have hwait := h.wait
      refine ⟨⟨fun heq => ?_, fun hall => absurd (hall hregain.1 hregain.2) hbest⟩,
        fun hall => absurd (hall hregain.1 hregain.2) hbest⟩
      have := congrArg StopDecision.wait heq
      simp only at this
      omega
    · have hbest' : ¬cb'.args.improves current cb'.best := by
        rw [hargs]
        by_cases hf : args.Forgets before
        · rw [h.forgets hf]
          exact fun hinit => hregain ⟨hf, hinit⟩
        · rw [h.knows hf, h.best]
          exact hbest
      have hwait := h.wait
      rw [EarlyStopping.on_test_end_worse hbase weights hbest', hworse]
      refine ⟨⟨fun _ hf hinit => absurd ⟨hf, hinit⟩ hregain, fun _ => by rw [h.same]⟩,
        fun _ => ⟨h.args_eq, by simp only; omega, ?_, ?_, fun hf => ?_, fun hno => ?_⟩⟩
      · rw [best_of_snoc, EarlyStoppingArgs.best_after, if_neg hbest]
        exact h.best
      · rw [h.same]
      · exact h.forgets (forgets_snoc_iff.mp hf).1
      · refine h.knows fun hf => hno (forgets_snoc_iff.mpr ⟨hf, ?_⟩)
        rintro c ⟨⟩ hinit
        exact hregain ⟨hf, hinit⟩

/-- From here on both decide the same iff no metric brings them apart. -/
theorem EarlyStopping.decisions_iff (hbase : base.Documented) (h : Beside args before cb cb')
    (events : List (CallbackEvent W)) :
    EarlyStopping.decisions base cb' events =
        EarlyStopping.decisions base cb (CallbackEvent.uninterrupted events) ↔
      ∀ seen current weights after, events = seen ++ .test_end (some current) weights :: after →
        args.Forgets (before ++ seen) → args.improves current args.initial_best →
          args.improves current (args.best_of (before ++ seen)) := by
  induction events generalizing before cb cb' with
  | nil => exact ⟨fun _ seen _ _ _ heq => by simp at heq, fun _ => rfl⟩
  | cons e events ih =>
    -- What is asked of the first event and of the others.
    have hsplit : (∀ seen current weights after,
        e :: events = seen ++ .test_end (some current) weights :: after →
          args.Forgets (before ++ seen) → args.improves current args.initial_best →
            args.improves current (args.best_of (before ++ seen))) ↔
        (∀ current weights, e = .test_end (some current) weights → args.Forgets before →
          args.improves current args.initial_best → args.improves current (args.best_of before)) ∧
        ∀ seen current weights after, events = seen ++ .test_end (some current) weights :: after →
          args.Forgets (before ++ [e] ++ seen) → args.improves current args.initial_best →
            args.improves current (args.best_of (before ++ [e] ++ seen)) := by
      constructor
      · refine fun hall => ⟨?_, fun seen current weights after heq => ?_⟩
        · rintro current weights rfl
          have hfirst := hall [] current weights events rfl
          rwa [List.append_nil] at hfirst
        · rw [List.append_assoc]
          exact hall (e :: seen) current weights after (by rw [heq]; rfl)
      · rintro ⟨hfirst, hrest⟩ seen current weights after heq
        cases seen with
        | nil =>
          rw [List.append_nil]
          exact hfirst current weights (List.cons.inj heq).1
        | cons e' seen =>
          obtain ⟨rfl, hevents⟩ := List.cons.inj heq
          have := hrest seen current weights after hevents
          rwa [List.append_assoc] at this
    rw [hsplit]
    rcases e with ⟨_ | current, weights⟩ | _
    · obtain ⟨hsame, hnext⟩ := h.unknown hbase weights
      change EarlyStopping.decisions base cb' _ =
        EarlyStopping.decisions base cb (.test_end none weights :: CallbackEvent.uninterrupted events) ↔ _
      rw [EarlyStopping.decisions_cons_iff hbase, ih hnext]
      exact ⟨fun hall => ⟨fun _ _ heq => (by cases heq), hall.2⟩, fun hall => ⟨hsame, hall.2⟩⟩
    · obtain ⟨hsame, hnext⟩ := h.metric hbase current weights
      change EarlyStopping.decisions base cb' _ = EarlyStopping.decisions base cb
        (.test_end (some current) weights :: CallbackEvent.uninterrupted events) ↔ _
      rw [EarlyStopping.decisions_cons_iff hbase, hsame]
      constructor
      · rintro ⟨hnow, hrest⟩
        refine ⟨?_, (ih (hnext hnow)).mp hrest⟩
        rintro c w ⟨⟩
        exact hnow
      · rintro ⟨hnow, hrest⟩
        have hnow := hnow current weights rfl
        exact ⟨hnow, (ih (hnext hnow)).mpr hrest⟩
    · have hnext := h.restart
      change EarlyStopping.decisions base cb' _ =
        EarlyStopping.decisions base cb (CallbackEvent.uninterrupted events) ↔ _
      rw [EarlyStopping.decisions, EarlyStopping.resume_eq hbase]
      change EarlyStopping.decisions base _ _ = _ ↔ _
      rw [ih hnext]
      exact ⟨fun hall => ⟨fun _ _ heq => (by cases heq), hall⟩, fun hall => hall.2⟩

theorem Beside.start (hbase : base.Documented) (args : EarlyStoppingArgs) :
    Beside args [] (base.on_train_begin (EarlyStopping.new args))
      (base.on_train_begin (EarlyStopping.new args)) := by
  obtain ⟨best_weights, hbegin⟩ := hbase.on_train_begin (EarlyStopping.new args)
  rw [hbegin]
  refine ⟨rfl, le_rfl, rfl, rfl, ?_, fun _ => rfl⟩
  rintro ⟨trained, quiet, heq, -⟩
  simp at heq

theorem EarlyStopping.resumes_iff (hbase : base.Documented) (events : List (CallbackEvent W)) :
    EarlyStopping.Resumes base args events ↔ args.RegainsBest events :=
  EarlyStopping.decisions_iff hbase (Beside.start hbase args) events

end Trainings

/-! ### The learning rate -/

/-- A restart changes nothing. -/
theorem ReduceLROnPlateau.resume_eq {base : BaseReduceLR} (hbase : base.Documented)
    (cb : ReduceLROnPlateau) : ReduceLROnPlateau.resume base cb = .ok cb := by
  obtain ⟨var, rest, hvars, hknown⟩ := hbase.vars
  obtain ⟨best, hbegin⟩ := hbase.on_train_begin (ReduceLROnPlateau.new cb.args)
  rw [ReduceLROnPlateau.resume, ReduceLROnPlateau.get_state, hvars, get_state_documented hknown,
    hbegin]
  rfl

theorem ReduceLROnPlateau.resumes {base : BaseReduceLR} (hbase : base.Documented)
    (args : ReduceLRArgs) (events : List (CallbackEvent ℚ)) :
    ReduceLROnPlateau.Resumes base args events := by
  have hall : ∀ (events : List (CallbackEvent ℚ)) (cb : ReduceLROnPlateau),
      ReduceLROnPlateau.decisions base cb events =
        ReduceLROnPlateau.decisions base cb (CallbackEvent.uninterrupted events) := by
    intro events
    induction events with
    | nil => exact fun _ => rfl
    | cons e events ih =>
      intro cb
      cases e with
      | test_end current lr =>
        change _ = ReduceLROnPlateau.decisions base cb
          (.test_end current lr :: CallbackEvent.uninterrupted events)
        rw [ReduceLROnPlateau.decisions, ReduceLROnPlateau.decisions, ih]
      | restart =>
        change _ = ReduceLROnPlateau.decisions base cb (CallbackEvent.uninterrupted events)
        rw [ReduceLROnPlateau.decisions, ReduceLROnPlateau.resume_eq hbase]
        exact ih cb
  exact hall events _

/-- CORRECT: with the documented classes of `tf.keras`, the restarts change no decision of the two
    callbacks iff early stopping, which forgets the best metric, regains it each time before it
    takes a worse one for an improvement. -/
theorem callbacks_resume_iff {base : BaseEarlyStopping W} (hbase : base.Documented)
    {lr_base : BaseReduceLR} (hlr : lr_base.Documented) (args : EarlyStoppingArgs)
    (events : List (CallbackEvent W)) (lr_args : ReduceLRArgs)
    (lr_events : List (CallbackEvent ℚ)) :
    EarlyStopping.Resumes base args events ∧
        ReduceLROnPlateau.Resumes lr_base lr_args lr_events ↔ args.RegainsBest events := by
  rw [EarlyStopping.resumes_iff hbase]
  exact and_iff_left (ReduceLROnPlateau.resumes hlr lr_args lr_events)

/-! ### The documented classes -/

/-- The algorithm of `tf.keras.callbacks.EarlyStopping`. -/
def tfEarlyStopping : BaseEarlyStopping W where
  vars := ["validation_data", "model", "_chief_worker_only", "_supports_tf_logs", "monitor"]
  on_train_begin := fun cb => { cb with
    best := { cb.args with baseline := cb.baseline : EarlyStoppingArgs }.initial_best
    wait := 0
    stopped_epoch := 0 }
  on_epoch_end := fun cb epoch current weights =>
    match current with
    | none => (cb, false, none)
    | some current =>
      if cb.args.improves current cb.best then
        ({ cb with
          best := (current : Best)
          wait := 0
          best_weights := if cb.restore_best_weights then some weights else cb.best_weights },
          false, none)
      else if cb.wait + 1 < cb.args.patience then ({ cb with wait := cb.wait + 1 }, false, none)
      else
        ({ cb with wait := cb.wait + 1, stopped_epoch := epoch }, true,
          if cb.restore_best_weights then cb.best_weights else none)

theorem tfEarlyStopping_documented : (tfEarlyStopping (W := W)).Documented where
  vars := ⟨_, _, rfl, .inr (by decide)⟩
  on_train_begin := fun cb => ⟨cb.best_weights, rfl⟩
  unknown := fun _ _ _ => rfl
  better := fun _ _ _ _ h => if_pos h
  worse := fun _ _ _ _ h hwait => (if_neg h).trans (if_pos hwait)
  stops := fun _ _ _ _ h hwait => (if_neg h).trans (if_neg (not_lt.mpr hwait))

/-- The algorithm of `tf.keras.callbacks.ReduceLROnPlateau`. -/
def tfReduceLR : BaseReduceLR where
  vars := ["validation_data", "model", "_chief_worker_only", "_supports_tf_logs", "monitor"]
  on_train_begin := fun cb => { cb with
    best := if cb.args.greater then ⊥ else ⊤
    wait := 0
    cooldown_counter := 0 }
  on_epoch_end := fun cb _ current lr =>
    match current with
    | none => (cb, lr)
    | some current =>
      let cb := if 0 < cb.cooldown_counter then
        { cb with cooldown_counter := cb.cooldown_counter - 1, wait := 0 } else cb
      let improved := if cb.args.greater then
        decide (cb.best < ((current - cb.args.min_delta : ℚ) : Best))
        else decide (((current + cb.args.min_delta : ℚ) : Best) < cb.best)
      if improved then ({ cb with best := (current : Best), wait := 0 }, lr)
      else if 0 < cb.cooldown_counter then (cb, lr)
      else if cb.wait + 1 < cb.args.patience ∨ lr ≤ cb.args.min_lr then
        ({ cb with wait := cb.wait + 1 }, lr)
      else ({ cb with wait := 0, cooldown_counter := cb.args.cooldown },
        max (lr * cb.args.factor) cb.args.min_lr)

theorem tfReduceLR_documented : tfReduceLR.Documented where
  vars := ⟨_, _, rfl, .inr (by decide)⟩
  on_train_begin := fun _ => ⟨_, rfl⟩

/-- Smaller is better, and training stops with the first metric that is not. -/
def impatient : EarlyStoppingArgs where
  greater := false
  min_delta := 0
  patience := 1
  baseline := none
  restore_best_weights := false

/-- After the metrics 1 and 2 training is to stop, but not if it was restarted in between. -/
theorem best_is_forgotten :
    ∃ base : BaseEarlyStopping Unit, base.Documented ∧
      EarlyStopping.decisions base (base.on_train_begin (EarlyStopping.new impatient))
          [.test_end (some 1) (), .test_end (some 2) ()] =
        .ok [⟨0, false, none⟩, ⟨1, true, none⟩] ∧
      EarlyStopping.decisions base (base.on_train_begin (EarlyStopping.new impatient))
          [.test_end (some 1) (), .restart, .test_end (some 2) ()] =
        .ok [⟨0, false, none⟩, ⟨0, false, none⟩] ∧
      ¬EarlyStopping.Resumes base impatient
        [.test_end (some 1) (), .restart, .test_end (some 2) ()] := by
  refine ⟨tfEarlyStopping, tfEarlyStopping_documented, ?_, ?_, ?_⟩
  · decide +kernel
  · decide +kernel
  · rw [EarlyStopping.Resumes]
    decide +kernel

/-- The second metric improves on the first one, so it is no matter that it was forgotten. -/
theorem callbacks_resume_iff_improving :
    (EarlyStopping.Resumes (tfEarlyStopping (W := Unit)) impatient
        [.test_end (some 2) (), .restart, .test_end (some 1) ()] ∧
      ReduceLROnPlateau.Resumes tfReduceLR ⟨false, 1 / 2, 1, 0, 0, 0⟩
        [.test_end (some 2) 1, .restart, .test_end (some 3) 1]) ∧
      impatient.RegainsBest
        ([.test_end (some 2) (), .restart, .test_end (some 1) ()] : List (CallbackEvent Unit)) := by
  have hresumes : EarlyStopping.Resumes (tfEarlyStopping (W := Unit)) impatient
      [.test_end (some 2) (), .restart, .test_end (some 1) ()] ∧
      ReduceLROnPlateau.Resumes tfReduceLR ⟨false, 1 / 2, 1, 0, 0, 0⟩
        [.test_end (some 2) 1, .restart, .test_end (some 3) 1] := by
    rw [EarlyStopping.Resumes, ReduceLROnPlateau.Resumes]
    decide +kernel
  exact ⟨hresumes, (callbacks_resume_iff tfEarlyStopping_documented tfReduceLR_documented impatient _
    _ _).mp hresumes⟩

end Determined.Keras
