import Determined.Model.Workload

/-! Searcher operations (`pkg/searcher/operations.go`). A request id links all operations of one
    trial; the code draws it at random, so the models take any type with decidable equality and,
    where ids are drawn, a source of pairwise distinct ones (`Rand`). A `Create` keeps the request
    id and the checkpoint to start from: its seed and hyperparameters decide nothing modelled
    here. -/

namespace Determined.Searcher
open Determined.Model

variable {ι : Type}

/-- A runnable operation: what a searcher may ask one trial to do. -/
inductive Runnable (ι : Type) where
  | train (requestID : ι) (length : Length)
  | validate (requestID : ι)
  | checkpoint (requestID : ι)
  deriving DecidableEq, Repr

def Runnable.requestID : Runnable ι → ι
  | .train r _ => r
  | .validate r => r
  | .checkpoint r => r

/-- Create a new trial for the search method, from the checkpoint operation's result if given. -/
structure Create (ι : Type) where
  requestID : ι
  checkpoint : Option ι
  deriving DecidableEq, Repr

/-- The operations a search method can return. -/
inductive Operation (ι : Type) where
  | create (create : Create ι)
  | runnable (op : Runnable ι)
  | close (requestID : ι)
  | shutdown (failure : Bool)
  deriving DecidableEq, Repr

def newTrain (r : ι) (length : Length) : Operation ι := .runnable (.train r length)

def newValidate (r : ι) : Operation ι := .runnable (.validate r)

def newCheckpoint (r : ι) : Operation ι := .runnable (.checkpoint r)

/-- The metrics that come with a completed operation. -/
inductive OpMetrics where
  | none
  | validation (metrics : Option ValidationMetrics)
  | checkpoint (metrics : CheckpointMetrics)
  deriving DecidableEq, Repr

/-- The random state, as far as request ids go: an injective sequence and the position in it. -/
structure Rand (ι : Type) where
  draw : ℕ → ι
  fresh : Function.Injective draw
  pos : ℕ

/-- Draw a new request id and make a `Create` of it. -/
def newCreate (rand : Rand ι) : Create ι × Rand ι :=
  (⟨rand.draw rand.pos, none⟩, { rand with pos := rand.pos + 1 })

def newCreateFromCheckpoint (rand : Rand ι) (checkpoint : ι) : Create ι × Rand ι :=
  ({ (newCreate rand).1 with checkpoint := some checkpoint }, (newCreate rand).2)

end Determined.Searcher
