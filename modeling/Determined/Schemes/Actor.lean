import Determined.Schemes.Run

/-! One actor: an inbox, a `Receive` that handles the letter at its head, and a clean-up.

    Stopping is a letter like any other, so the letters already in the inbox are handled before it.
    An error returned from `Receive`, or a panic in it, closes the actor at once: the rest of the
    inbox is dropped and the clean-up runs. -/

namespace Determined.Schemes

/-- How a call of `Receive` ends. -/
inductive Ending where | done | failed | panicked
  deriving DecidableEq, Repr

inductive Letter (μ : Type*) where
  | msg (m : μ)
  | stop
  deriving DecidableEq, Repr

/-- What a call of `Receive` does: the new state, what it tells others, and what it puts into the
    actor's own inbox. -/
structure Reaction (σ μ ο : Type*) where
  state : σ
  told : List ο
  toSelf : List (Letter μ)
  ending : Ending

structure Behaviour (σ μ ο : Type*) where
  receive : σ → μ → Reaction σ μ ο
  postStop : σ → σ × List ο

/-- An actor between two letters, with all it has told so far. -/
structure Live (σ μ ο : Type*) where
  state : σ
  inbox : List (Letter μ)
  told : List ο
  closed : Bool
  panicked : Bool
  deriving DecidableEq, Repr

variable {σ μ ο : Type*} {b : Behaviour σ μ ο} {l l' : Live σ μ ο}

namespace Live

/-- The actor before its first letter. -/
def start (s : σ) : Live σ μ ο := ⟨s, [], [], false, false⟩

/-- A letter to a closed actor is lost. -/
def deliver (l : Live σ μ ο) (letter : Letter μ) : Live σ μ ο :=
  if l.closed then l else { l with inbox := l.inbox ++ [letter] }

def close (b : Behaviour σ μ ο) (l : Live σ μ ο) : Live σ μ ο :=
  { l with
    state := (b.postStop l.state).1
    told := l.told ++ (b.postStop l.state).2
    inbox := []
    closed := true }

/-- The actor after the state change of a reaction, before its ending takes effect. -/
def react (l : Live σ μ ο) (r : Reaction σ μ ο) (rest : List (Letter μ)) : Live σ μ ο :=
  { l with
    state := r.state
    told := l.told ++ r.told
    inbox := rest ++ r.toSelf
    panicked := l.panicked || r.ending == .panicked }

/-- Handle one message. -/
def handle (b : Behaviour σ μ ο) (l : Live σ μ ο) (m : μ) (rest : List (Letter μ)) : Live σ μ ο :=
  let r := b.receive l.state m
  match r.ending with
  | .done => l.react r rest
  | .failed | .panicked => (l.react r rest).close b

/-- Take the letter at the head of the inbox, if there is one. -/
def process (b : Behaviour σ μ ο) (l : Live σ μ ο) : Option (Live σ μ ο) :=
  match l.inbox with
  | [] => none
  | .stop :: _ => some (l.close b)
  | .msg m :: rest => some (l.handle b m rest)

end Live

/-- Something happens to an actor: a letter arrives, or it takes the next one. -/
inductive Turn (μ : Type*) where
  | deliver (letter : Letter μ)
  | process
  deriving DecidableEq, Repr

/-- An actor that anyone may send anything at any time. -/
def Live.turn (b : Behaviour σ μ ο) (l : Live σ μ ο) : Turn μ → Option (Live σ μ ο)
  | .deliver letter => some (l.deliver letter)
  | .process => l.process b

def Live.Step (b : Behaviour σ μ ο) (l : Live σ μ ο) (e : Turn μ) (l' : Live σ μ ο) : Prop :=
  l.turn b e = some l'

/-- The message the next letter brings, if it is one. -/
def Live.next (l : Live σ μ ο) : Option μ :=
  match l.inbox with
  | .msg m :: _ => some m
  | _ => none

@[simp] theorem Live.deliver_state (l : Live σ μ ο) (letter : Letter μ) :
    (l.deliver letter).state = l.state := by
  unfold Live.deliver
  split <;> rfl

@[simp] theorem Live.deliver_told (l : Live σ μ ο) (letter : Letter μ) :
    (l.deliver letter).told = l.told := by
  unfold Live.deliver
  split <;> rfl

@[simp] theorem Live.deliver_closed (l : Live σ μ ο) (letter : Letter μ) :
    (l.deliver letter).closed = l.closed := by
  unfold Live.deliver
  split <;> rfl

@[simp] theorem Live.deliver_panicked (l : Live σ μ ο) (letter : Letter μ) :
    (l.deliver letter).panicked = l.panicked := by
  unfold Live.deliver
  split <;> rfl

/-- The ways an actor takes a letter: it stops, or it handles a message and goes on or closes. -/
theorem Live.process_cases (h : l.process b = some l') :
    (∃ rest, l.inbox = .stop :: rest ∧ l' = l.close b) ∨
    (∃ m rest, l.inbox = .msg m :: rest ∧
      ((b.receive l.state m).ending = .done ∧ l' = l.react (b.receive l.state m) rest ∨
        (b.receive l.state m).ending ≠ .done ∧
          l' = (l.react (b.receive l.state m) rest).close b)) := by
  rw [process.eq_def] at h
  split at h
  · cases h
  · rename_i rest heq
    exact .inl ⟨rest, heq, (Option.some.inj h).symm⟩
  · rename_i m rest heq
    refine .inr ⟨m, rest, heq, ?_⟩
    rw [← Option.some.inj h, handle]
    cases hend : (b.receive l.state m).ending <;> simp

end Determined.Schemes
