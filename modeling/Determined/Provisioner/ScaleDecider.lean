import Determined.Schemes.Run
import Determined.Schemes.Fill

/-! Which instances the provisioner launches and terminates
    (`internal/provisioner/scale_decider.go`, `provision` of `provisioner.go`).

    A listing of the cloud provider names every instance once, and so does the snapshot of it. Times
    and periods are integers. The order in which Go walks a map is not fixed, nor is the order in
    which its sort leaves instances launched together: a decision is given both (`Walk`). The maps
    that are read by their keys only are lists of these. -/

namespace Determined.Provisioner
open Determined.Schemes

inductive InstanceState where
  | unknown | starting | running | stopping | stopped | terminating | spotRequestPendingAWS
  deriving DecidableEq, Repr

structure Instance where
  id : String
  launchTime : ℤ
  agentName : String
  state : InstanceState
  deriving DecidableEq, Repr

structure AgentSummary where
  name : String
  isIdle : Bool
  deriving DecidableEq, Repr

/-- The instances of a provider, each under its own id. -/
structure Listing where
  instances : List Instance
  nodup : (instances.map (·.id)).Nodup

def Listing.empty : Listing := ⟨[], List.nodup_nil⟩

/-- Why an instance is terminated. -/
inductive Reason where
  | stoppedInstances | longDisconnectedInstances | longIdleInstances | instanceNumberExceedsMaximum
  deriving DecidableEq, Repr

/-- The instances selected for termination, with the reason of each. -/
abbrev Selection := AList fun _ : String => Reason

/-- The bounds of the configuration, which are checked when it is read. -/
structure Config where
  maxIdlePeriod : ℤ
  maxStartingPeriod : ℤ
  maxDisconnectPeriod : ℤ
  minInstanceNum : ℕ
  maxInstanceNum : ℕ
  maxInstanceNum_pos : 0 < maxInstanceNum
  min_le_max : minInstanceNum ≤ maxInstanceNum

/-- The orders that a decision takes the instances in. -/
structure Walk where
  visit : Reason → List String → List String
  latestFirst : List Instance → List Instance
  visit_perm : ∀ reason ids, (visit reason ids).Perm ids
  latestFirst_perm : ∀ l, (latestFirst l).Perm l
  latestFirst_sorted : ∀ l, (latestFirst l).Pairwise fun a b => b.launchTime ≤ a.launchTime

structure ScaleDecider where
  config : Config
  instanceSnapshot : Listing
  connectedAgentSnapshot : List String
  idleAgentSnapshot : List String
  desiredNewInstances : ℤ
  instances : List Instance
  pending : List String
  recentlyLaunched : List String
  stopped : List String
  disconnected : List (String × ℤ)
  idle : List (String × ℤ)
  longDisconnected : List String
  longIdle : List String

def newScaleDecider (config : Config) : ScaleDecider :=
  ⟨config, .empty, [], [], 0, [], [], [], [], [], [], [], []⟩

namespace ScaleDecider

variable (s : ScaleDecider)

def updateScalingInfo (desiredNewInstances : ℤ) (agents : List AgentSummary) : ScaleDecider :=
  { s with
    desiredNewInstances
    idleAgentSnapshot := (agents.filter (·.isIdle)).map (·.name)
    connectedAgentSnapshot := agents.map (·.name) }

/-- The snapshot is replaced if it differs from the listing, which the second result tells. -/
def updateInstanceSnapshot (listing : Listing) : ScaleDecider × Bool :=
  if s.instanceSnapshot.instances.length ≠ listing.instances.length then
    ({ s with instanceSnapshot := listing }, true)
  else if listing.instances.any fun inst =>
      s.instanceSnapshot.instances.find? (·.id == inst.id) != some inst then
    ({ s with instanceSnapshot := listing }, true)
  else (s, false)

/-! ### The states of the instances -/

/-- What the decider makes of an instance. An idle or disconnected one has been so since some time,
    for longer than is allowed or not. -/
inductive Status where
  | requested
  | occupied
  | idle (since : ℤ) (long : Bool)
  | starting
  | disconnected (since : ℤ) (long : Bool)
  | stopped
  | ignored
  deriving DecidableEq, Repr

/-- An instance keeps the time at which it was first seen idle, or disconnected. -/
def status (now : ℤ) (inst : Instance) : Status :=
  match inst.state with
  | .spotRequestPendingAWS => .requested
  | .starting | .running =>
    if inst.agentName ∈ s.connectedAgentSnapshot then
      if inst.agentName ∈ s.idleAgentSnapshot then
        match s.idle.lookup inst.id with
        | some t => .idle t (decide (now > t + s.config.maxIdlePeriod))
        | none => .idle now false
      else .occupied
    else if inst.launchTime + s.config.maxStartingPeriod > now then .starting
    else
      match s.disconnected.lookup inst.id with
      | some t => .disconnected t (decide (now > t + s.config.maxDisconnectPeriod))
      | none => .disconnected now false
  | .stopped => .stopped
  | .unknown | .stopping | .terminating => .ignored

namespace Status

/-- The instance is among those that the decider counts. -/
def isCounted : Status → Bool
  | .stopped | .ignored => false
  | _ => true

def isRecentlyLaunched : Status → Bool
  | .requested | .starting => true
  | _ => false

def idleSince : Status → Option ℤ
  | .idle t _ => some t
  | _ => none

def disconnectedSince : Status → Option ℤ
  | .disconnected t _ => some t
  | _ => none

def isLongIdle : Status → Bool
  | .idle _ long => long
  | _ => false

def isLongDisconnected : Status → Bool
  | .disconnected _ long => long
  | _ => false

end Status

/-- The ids of the instances in the snapshot whose status meets a condition. -/
def idsWith (now : ℤ) (p : Status → Bool) : List String :=
  (s.instanceSnapshot.instances.filter fun inst => p (s.status now inst)).map (·.id)

/-- The times at which the instances in the snapshot entered some status. -/
def timesOf (now : ℤ) (since : Status → Option ℤ) : List (String × ℤ) :=
  s.instanceSnapshot.instances.filterMap fun inst =>
    (since (s.status now inst)).map fun t => (inst.id, t)

/-- Every instance is put where its status says. -/
def calculateInstanceStates (now : ℤ) : ScaleDecider :=
  { s with
    instances := s.instanceSnapshot.instances.filter fun inst => (s.status now inst).isCounted
    pending := s.idsWith now (· == .requested)
    recentlyLaunched := s.idsWith now (·.isRecentlyLaunched)
    stopped := s.idsWith now (· == .stopped)
    disconnected := s.timesOf now (·.disconnectedSince)
    idle := s.timesOf now (·.idleSince)
    longDisconnected := s.idsWith now (·.isLongDisconnected)
    longIdle := s.idsWith now (·.isLongIdle) }

/-! ### Terminating and launching -/

/-- Select instances as long as more of them are left than a bound. The second result is the ids
    that were selected. -/
def terminateAbove (total bound : ℕ) (reason : Reason) :
    List String → Selection → Selection × List String
  | [], toTerminate => (toTerminate, [])
  | id :: ids, toTerminate =>
    if (total : ℤ) - toTerminate.keys.length > bound then
      let rest := terminateAbove total bound reason ids (toTerminate.insert id reason)
      (rest.1, id :: rest.2)
    else (toTerminate, [])

/-- Select all of these instances. -/
def terminateAll (reason : Reason) (ids : List String) (toTerminate : Selection) : Selection :=
  ids.foldl (fun sel id => sel.insert id reason) toTerminate

/-- First go the stopped instances and those disconnected or idle for long, the latter down to the
    minimum. What exceeds the maximum is taken from the unfulfilled spot requests, the idle, the
    disconnected and then the latest instances. -/
def findInstancesToTerminate (w : Walk) : ScaleDecider × Selection :=
  let total := s.instances.length
  let sel := terminateAll .stoppedInstances s.stopped ∅
  let sel := terminateAll .longDisconnectedInstances s.longDisconnected sel
  let disconnected := s.disconnected.filter (·.1 ∉ s.longDisconnected)
  let r := terminateAbove total s.config.minInstanceNum .longIdleInstances
    (w.visit .longIdleInstances s.longIdle) sel
  let idle := s.idle.filter (·.1 ∉ r.2)
  let excess := terminateAbove total s.config.maxInstanceNum .instanceNumberExceedsMaximum
  let visit := w.visit .instanceNumberExceedsMaximum
  let rPending := excess (visit s.pending) r.1
  let rIdle := excess (visit (idle.map (·.1))) rPending.1
  let rDisconnected := excess (visit (disconnected.map (·.1))) rIdle.1
  let rLatest := excess ((w.latestFirst s.instances).map (·.id)) rDisconnected.1
  ({ s with
      stopped := []
      pending := s.pending.filter (· ∉ rPending.2)
      idle := idle.filter (·.1 ∉ rIdle.2)
      disconnected := disconnected.filter (·.1 ∉ rDisconnected.2) },
    rLatest.1)

def calculateNumInstancesToLaunch : ℤ :=
  let desiredNum := s.desiredNewInstances - s.recentlyLaunched.length
  let desiredNum := min desiredNum (s.config.maxInstanceNum - s.instances.length)
  let desiredNum := max desiredNum (s.config.minInstanceNum - s.instances.length)
  max 0 desiredNum

/-- What is decided: the instances to terminate and how many to launch. -/
structure Decision where
  toTerminate : Selection
  numToLaunch : ℤ

def provision (listing : Listing) (now : ℤ) (w : Walk) : ScaleDecider × Decision :=
  let s := ((s.updateInstanceSnapshot listing).1).calculateInstanceStates now
  let (s, toTerminate) := s.findInstancesToTerminate w
  (s, ⟨toTerminate, s.calculateNumInstancesToLaunch⟩)

/-- What happens to the decider: it is told of the agents, or it is to decide. Nothing is decided
    when the instances cannot be listed. -/
inductive Event where
  | scalingInfo (desiredNewInstances : ℤ) (agents : List AgentSummary)
  | listFailed
  | provision (listing : Listing) (now : ℤ) (w : Walk) (decision : Decision)

inductive Step : ScaleDecider → Event → ScaleDecider → Prop
  | scalingInfo (s : ScaleDecider) (desired : ℤ) (agents : List AgentSummary) :
      Step s (.scalingInfo desired agents) (s.updateScalingInfo desired agents)
  | listFailed (s : ScaleDecider) : Step s .listFailed s
  | provision (s : ScaleDecider) (listing : Listing) (now : ℤ) (w : Walk) :
      Step s (.provision listing now w (s.provision listing now w).2) (s.provision listing now w).1

end ScaleDecider

end Determined.Provisioner
