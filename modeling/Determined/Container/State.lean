import Mathlib

/-! The states of a container (`pkg/container/state.go`), the transitions it may make, and what is
    reported when it stops (`pkg/agent/exit.go`). -/

namespace Determined.Container

inductive State where | assigned | pulling | starting | running | terminated
  deriving DecidableEq, Repr

def State.text : State → String
  | .assigned => "ASSIGNED"
  | .pulling => "PULLING"
  | .starting => "STARTING"
  | .running => "RUNNING"
  | .terminated => "TERMINATED"

def validTransitions : State → State → Bool
  | .assigned, .pulling | .assigned, .terminated => true
  | .pulling, .starting | .pulling, .terminated => true
  | .starting, .running | .starting, .terminated => true
  | .running, .terminated => true
  | _, _ => false

/-- The new state; an illegal transition panics. -/
def State.transition (s new : State) : Option State :=
  if validTransitions s new then some new else none

/-- The states of a list follow each other by valid transitions, from `s` on. -/
def Path (s : State) (states : List State) : Prop :=
  (s :: states).IsChain fun a b => validTransitions a b = true

/-- How far a container is in its life. -/
def State.rank : State → ℕ
  | .assigned => 0
  | .pulling => 1
  | .starting => 2
  | .running => 3
  | .terminated => 4

theorem rank_lt_of_valid {s t : State} (h : validTransitions s t = true) : s.rank < t.rank := by
  cases s <;> cases t <;> first | exact absurd h Bool.false_ne_true | decide

theorem valid_terminated {s : State} (h : s ≠ .terminated) :
    validTransitions s .terminated = true := by
  cases s <;> first | rfl | exact absurd rfl h

theorem path_nil (s : State) : Path s [] := List.isChain_singleton s

theorem Path.snoc {s t u : State} {states : List State} (h : Path s states)
    (ht : (s :: states).getLast? = some t) (hu : validTransitions t u = true) :
    Path s (states ++ [u]) := by
  rw [Path, ← List.cons_append, List.isChain_append]
  refine ⟨h, List.isChain_singleton u, fun x hx y hy => ?_⟩
  rw [ht] at hx
  cases hx
  cases hy
  exact hu

/-- Ranks grow along a path. -/
theorem Path.pairwise {s : State} {states : List State} (h : Path s states) :
    (s :: states).Pairwise fun a b => a.rank < b.rank :=
  (List.IsChain.imp (fun _ _ => rank_lt_of_valid) h).pairwise

/-- A path meets each state at most once. -/
theorem Path.count_le_one {s : State} {states : List State} (h : Path s states) (t : State) :
    states.count t ≤ 1 := by
  have hnodup : (s :: states).Nodup :=
    h.pairwise.imp fun hlt heq => absurd (heq ▸ hlt) (lt_irrefl _)
  exact List.nodup_iff_count_le_one.mp (List.nodup_cons.mp hnodup).2 t

/-! ### How a container stopped -/

inductive FailureType where | containerFailed | taskAborted | taskError | agentFailed | agentError
  deriving DecidableEq, Repr

def FailureType.text : FailureType → String
  | .containerFailed => "container failed with non-zero exit code"
  | .taskAborted => "task was aborted before the task was started"
  | .taskError => "task failed without an associated exit code"
  | .agentFailed => "agent failed while the container was running"
  | .agentError => "agent failed to launch the container"

/-- Why a container did not complete successfully. -/
structure ContainerFailure where
  failureType : FailureType
  errMsg : String
  exitCode : Option ℤ
  deriving DecidableEq, Repr

structure ContainerStopped where
  failure : Option ContainerFailure
  deriving DecidableEq, Repr

def containerError (failureType : FailureType) (err : String) : ContainerStopped :=
  ⟨some ⟨failureType, err, none⟩⟩

/-- No failure is returned for the exit code zero. -/
def containerExited (code : ℤ) : ContainerStopped :=
  if code = 0 then ⟨none⟩
  else ⟨some ⟨.containerFailed, FailureType.containerFailed.text ++ ": " ++ toString code, some code⟩⟩

structure Address where
  containerIP : String
  containerPort : ℤ
  hostIP : String
  hostPort : ℤ
  deriving DecidableEq, Repr

end Determined.Container
