import Mathlib.Algebra.Order.Ring.Rat
import Mathlib.Order.WithBotTop
import Mathlib.Tactic

/-! The stateful callbacks that wrap those of `tf.keras` (`determined/keras/callbacks.py`):
    `EarlyStopping` and `ReduceLROnPlateau`, which run at the end of each validation and whose
    state is saved with a checkpoint and loaded once training has begun again.

    The classes of `tf.keras` that they inherit from are parameters, of which the documented
    behavior is assumed. Metrics are exact rationals. -/

namespace Determined.Keras

/-! ### Saved attributes -/

/-- The state of a callback, of which `state` holds the savable attributes. The loop over the
    variables returns in its first round, so only the first variable is checked. -/
def tf_keras_callback_get_state {S : Type} (cb_name : String) (savable extra vars : List String)
    (state : S) : Except String (Option S) :=
  match vars with
  | [] => .ok none
  | var :: _ =>
    if var ∉ savable ∧ var ∉ extra then
      .error s!"The Determined {cb_name} is not known to work with an implementation of {cb_name} that contains a variable named {var}."
    else .ok (some state)

/-- What happens to a callback: a validation with the monitored metric, if it was computed, and
    the weights or the learning rate at that time; or a checkpoint and a restart from it. -/
inductive CallbackEvent (ω : Type) where
  | test_end (current : Option ℚ) (model : ω)
  | restart
  deriving DecidableEq

/-- The events of a training that is never interrupted. -/
def CallbackEvent.uninterrupted {ω : Type} (events : List (CallbackEvent ω)) :
    List (CallbackEvent ω) :=
  events.filter fun e => match e with
    | .test_end _ _ => true
    | .restart => false

/-! ### EarlyStopping -/

/-- A metric, or an infinity. -/
abbrev Best := WithBotTop ℚ

/-- The constant configuration of `tf.keras.callbacks.EarlyStopping`. -/
structure EarlyStoppingArgs where
  /-- `monitor_op` is `np.greater`. -/
  greater : Bool
  min_delta : ℚ
  patience : ℤ
  baseline : Option ℚ
  restore_best_weights : Bool
  deriving DecidableEq

/-- The metric is better than the best one by more than `min_delta`. -/
def EarlyStoppingArgs.improves (args : EarlyStoppingArgs) (current : ℚ) (best : Best) : Prop :=
  if args.greater then best < ((current - |args.min_delta| : ℚ) : Best)
  else ((current + |args.min_delta| : ℚ) : Best) < best

instance (args : EarlyStoppingArgs) (current : ℚ) (best : Best) :
    Decidable (args.improves current best) := by
  unfold EarlyStoppingArgs.improves
  infer_instance

/-- What the best metric starts from. -/
def EarlyStoppingArgs.initial_best (args : EarlyStoppingArgs) : Best :=
  match args.baseline with
  | some baseline => (baseline : Best)
  | none => if args.greater then ⊥ else ⊤

structure EarlyStopping (W : Type) where
  args : EarlyStoppingArgs
  baseline : Option ℚ
  best : Best
  best_weights : Option W
  restore_best_weights : Bool
  stopped_epoch : ℤ
  wait : ℤ
  test_end_count : ℤ
  deriving DecidableEq

/-- The values of the savable attributes. -/
structure EarlyStoppingState (W : Type) where
  baseline : Option ℚ
  best_weights : Option W
  restore_best_weights : Bool
  stopped_epoch : ℤ
  wait : ℤ
  test_end_count : ℤ

/-- What a callback decided at the end of a validation. -/
structure StopDecision (W : Type) where
  wait : ℤ
  stop : Bool
  set_weights : Option W
  deriving DecidableEq

/-- `tf.keras.callbacks.EarlyStopping`; `on_epoch_end` may tell the model to stop training and to
    set its weights. -/
structure BaseEarlyStopping (W : Type) where
  vars : List String
  on_train_begin : EarlyStopping W → EarlyStopping W
  on_epoch_end : EarlyStopping W → ℤ → Option ℚ → W → EarlyStopping W × Bool × Option W

namespace EarlyStopping

variable {W : Type}

def savable_attributes : List String :=
  ["baseline", "best_weights", "restore_best_weights", "stopped_epoch", "wait", "test_end_count"]

def extra_attributes : List String :=
  ["model", "params", "validation_data", "_chief_worker_only", "_supports_tf_logs", "best",
    "min_delta", "monitor", "monitor_op", "patience", "verbose", "_extra_attributes",
    "_savable_attributes"]

/-- A new callback. -/
def new (args : EarlyStoppingArgs) : EarlyStopping W where
  args := args
  baseline := args.baseline
  best := args.initial_best
  best_weights := none
  restore_best_weights := args.restore_best_weights
  stopped_epoch := 0
  wait := 0
  test_end_count := 0

def on_test_end (base : BaseEarlyStopping W) (cb : EarlyStopping W) (current : Option ℚ)
    (weights : W) : EarlyStopping W × StopDecision W :=
  let r := base.on_epoch_end cb cb.test_end_count current weights
  ({ r.1 with test_end_count := cb.test_end_count + 1 }, ⟨r.1.wait, r.2.1, r.2.2⟩)

def get_state (base : BaseEarlyStopping W) (cb : EarlyStopping W) :
    Except String (Option (EarlyStoppingState W)) :=
  tf_keras_callback_get_state "EarlyStopping" savable_attributes extra_attributes base.vars
    { baseline := cb.baseline
      best_weights := cb.best_weights
      restore_best_weights := cb.restore_best_weights
      stopped_epoch := cb.stopped_epoch
      wait := cb.wait
      test_end_count := cb.test_end_count }

def load_state (cb : EarlyStopping W) (state : EarlyStoppingState W) : EarlyStopping W :=
  { cb with
    baseline := state.baseline
    best_weights := state.best_weights
    restore_best_weights := state.restore_best_weights
    stopped_epoch := state.stopped_epoch
    wait := state.wait
    test_end_count := state.test_end_count }

/-- A new callback, once training begins and the state is loaded that was saved. -/
def resume (base : BaseEarlyStopping W) (cb : EarlyStopping W) : Except String (EarlyStopping W) := do
  match ← get_state base cb with
  | some state => return load_state (base.on_train_begin (new cb.args)) state
  | none => .error "argument of type 'NoneType' is not iterable"

/-- What is decided at each validation. -/
def decisions (base : BaseEarlyStopping W) (cb : EarlyStopping W) :
    List (CallbackEvent W) → Except String (List (StopDecision W))
  | [] => .ok []
  | .test_end current weights :: events => do
    let r := on_test_end base cb current weights
    return r.2 :: (← decisions base r.1 events)
  | .restart :: events => do
    decisions base (← resume base cb) events

/-- The restarts do not change the decisions. -/
def Resumes (base : BaseEarlyStopping W) (args : EarlyStoppingArgs)
    (events : List (CallbackEvent W)) : Prop :=
  decisions base (base.on_train_begin (new args)) events =
    decisions base (base.on_train_begin (new args)) (CallbackEvent.uninterrupted events)

end EarlyStopping

/-- The documented behavior of `tf.keras.callbacks.EarlyStopping`. -/
structure BaseEarlyStopping.Documented {W : Type} (base : BaseEarlyStopping W) : Prop where
  vars : ∃ var rest, base.vars = var :: rest ∧
    (var ∈ EarlyStopping.savable_attributes ∨ var ∈ EarlyStopping.extra_attributes)
  on_train_begin : ∀ cb, ∃ best_weights, base.on_train_begin cb = { cb with
    best := { cb.args with baseline := cb.baseline : EarlyStoppingArgs }.initial_best
    best_weights := best_weights
    wait := 0
    stopped_epoch := 0 }
  unknown : ∀ cb epoch weights, base.on_epoch_end cb epoch none weights = (cb, false, none)
  better : ∀ cb epoch current weights, cb.args.improves current cb.best →
    base.on_epoch_end cb epoch (some current) weights = ({ cb with
      best := (current : Best)
      wait := 0
      best_weights := if cb.restore_best_weights then some weights else cb.best_weights },
      false, none)
  worse : ∀ cb epoch current weights, ¬cb.args.improves current cb.best → cb.wait + 1 < cb.args.patience →
    base.on_epoch_end cb epoch (some current) weights =
      ({ cb with wait := cb.wait + 1 }, false, none)
  stops : ∀ cb epoch current weights, ¬cb.args.improves current cb.best → cb.args.patience ≤ cb.wait + 1 →
    base.on_epoch_end cb epoch (some current) weights =
      ({ cb with wait := cb.wait + 1, stopped_epoch := epoch }, true,
        if cb.restore_best_weights then cb.best_weights else none)

/-! ### ReduceLROnPlateau -/

/-- The constant configuration of `tf.keras.callbacks.ReduceLROnPlateau`. -/
structure ReduceLRArgs where
  /-- `monitor_op` is `np.greater`. -/
  greater : Bool
  factor : ℚ
  patience : ℤ
  min_delta : ℚ
  cooldown : ℤ
  min_lr : ℚ
  deriving DecidableEq

structure ReduceLROnPlateau where
  args : ReduceLRArgs
  cooldown_counter : ℤ
  wait : ℤ
  best : Best
  test_end_count : ℤ
  deriving DecidableEq

/-- The values of the savable attributes. -/
structure ReduceLRState where
  cooldown_counter : ℤ
  wait : ℤ
  best : Best
  test_end_count : ℤ

/-- What a callback decided at the end of a validation. -/
structure LRDecision where
  wait : ℤ
  lr : ℚ
  deriving DecidableEq

/-- `tf.keras.callbacks.ReduceLROnPlateau`; `on_epoch_end` reads and sets the learning rate. -/
structure BaseReduceLR where
  vars : List String
  on_train_begin : ReduceLROnPlateau → ReduceLROnPlateau
  on_epoch_end : ReduceLROnPlateau → ℤ → Option ℚ → ℚ → ReduceLROnPlateau × ℚ

namespace ReduceLROnPlateau

def savable_attributes : List String := ["cooldown_counter", "wait", "best", "test_end_count"]

def extra_attributes : List String :=
  ["model", "params", "validation_data", "_chief_worker_only", "_supports_tf_logs", "cooldown",
    "factor", "min_delta", "min_lr", "mode", "monitor", "monitor_op", "patience", "verbose",
    "_extra_attributes", "_savable_attributes"]

/-- A new callback. -/
def new (args : ReduceLRArgs) : ReduceLROnPlateau where
  args := args
  cooldown_counter := 0
  wait := 0
  best := 0
  test_end_count := 0

def on_test_end (base : BaseReduceLR) (cb : ReduceLROnPlateau) (current : Option ℚ) (lr : ℚ) :
    ReduceLROnPlateau × LRDecision :=
  let r := base.on_epoch_end cb cb.test_end_count current lr
  ({ r.1 with test_end_count := cb.test_end_count + 1 }, ⟨r.1.wait, r.2⟩)

def get_state (base : BaseReduceLR) (cb : ReduceLROnPlateau) :
    Except String (Option ReduceLRState) :=
  tf_keras_callback_get_state "ReduceLROnPlateau" savable_attributes extra_attributes base.vars
    { cooldown_counter := cb.cooldown_counter
      wait := cb.wait
      best := cb.best
      test_end_count := cb.test_end_count }

def load_state (cb : ReduceLROnPlateau) (state : ReduceLRState) : ReduceLROnPlateau :=
  { cb with
    cooldown_counter := state.cooldown_counter
    wait := state.wait
    best := state.best
    test_end_count := state.test_end_count }

/-- A new callback, once training begins and the state is loaded that was saved. -/
def resume (base : BaseReduceLR) (cb : ReduceLROnPlateau) : Except String ReduceLROnPlateau := do
  match ← get_state base cb with
  | some state => return load_state (base.on_train_begin (new cb.args)) state
  | none => .error "argument of type 'NoneType' is not iterable"

/-- What is decided at each validation, given the learning rate of the optimizer. -/
def decisions (base : BaseReduceLR) (cb : ReduceLROnPlateau) :
    List (CallbackEvent ℚ) → Except String (List LRDecision)
  | [] => .ok []
  | .test_end current lr :: events => do
    let r := on_test_end base cb current lr
    return r.2 :: (← decisions base r.1 events)
  | .restart :: events => do
    decisions base (← resume base cb) events

/-- The restarts do not change the decisions. -/
def Resumes (base : BaseReduceLR) (args : ReduceLRArgs) (events : List (CallbackEvent ℚ)) : Prop :=
  decisions base (base.on_train_begin (new args)) events =
    decisions base (base.on_train_begin (new args)) (CallbackEvent.uninterrupted events)

end ReduceLROnPlateau

/-- The documented behavior of `tf.keras.callbacks.ReduceLROnPlateau`: `best`, `wait` and
    `cooldown_counter` are reset when training begins. -/
structure BaseReduceLR.Documented (base : BaseReduceLR) : Prop where
  vars : ∃ var rest, base.vars = var :: rest ∧
    (var ∈ ReduceLROnPlateau.savable_attributes ∨ var ∈ ReduceLROnPlateau.extra_attributes)
  on_train_begin : ∀ cb, ∃ best, base.on_train_begin cb = { cb with
    best := best
    wait := 0
    cooldown_counter := 0 }

end Determined.Keras
