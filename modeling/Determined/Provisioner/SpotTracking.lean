import Determined.Provisioner.ScaleDecider
import Determined.Provisioner.SpotRequests

/-! Which spot requests are tracked, and the instances listed for them
    (`internal/provisioner/aws_spot.go`, `aws.go`).

    A listing asks AWS three times for spot requests and once for instances; what it answers is an
    input, and may depend on the ids that are asked about. The answers that a listing came to receive
    are part of its outcome. Log entries are left out, and so are the tags set on instances, of which
    only a log entry depends. -/

namespace Determined.Provisioner
open Determined.Schemes

/-! ### Looking up a request -/

namespace SetOfSpotRequests

@[simp] theorem mem_deleteByID (c : SetOfSpotRequests) (id : String) (r : SpotRequest) :
    r ∈ (c.deleteByID id).reqs ↔ r ∈ c.reqs ∧ r.spotRequestId ≠ id := by
  simp [deleteByID]

theorem find_eq_some (c : SetOfSpotRequests) {id : String} {r : SpotRequest} :
    c.find id = some r ↔ r ∈ c.reqs ∧ r.spotRequestId = id := by
  constructor
  · intro h
    exact ⟨List.mem_of_find?_eq_some h, by simpa using List.find?_some h⟩
  · rintro ⟨hmem, rfl⟩
    cases hfind : c.find r.spotRequestId with
    | none => simpa using List.find?_eq_none.mp hfind r hmem
    | some r' =>
      have hid : r'.spotRequestId = r.spotRequestId := by simpa using List.find?_some hfind
      rw [List.inj_on_of_nodup_map c.nodup (List.mem_of_find?_eq_some hfind) hmem hid]

theorem find_eq_none (c : SetOfSpotRequests) {id : String} : c.find id = none ↔ id ∉ c.ids := by
  simp [find, ids, List.find?_eq_none]

@[simp] theorem find_empty (id : String) : empty.find id = none := rfl

theorem find_deleteByID (c : SetOfSpotRequests) (i id : String) :
    (c.deleteByID i).find id = if id = i then none else c.find id := by
  split
  · next h =>
    subst h
    simp [find_eq_none, ids, deleteByID]
  · next h =>
    refine Option.ext fun r => ?_
    rw [find_eq_some, find_eq_some, mem_deleteByID]
    constructor
    · exact fun ⟨hr, hid⟩ => ⟨hr.1, hid⟩
    · exact fun ⟨hr, hid⟩ => ⟨⟨hr, hid.trans_ne h⟩, hid⟩

theorem find_add (c : SetOfSpotRequests) (s : SpotRequest) (id : String) :
    (c.add s).find id = if s.spotRequestId = id then some s else c.find id := by
  have hfind : (c.add s).find id = ((c.deleteByID s.spotRequestId).find id).or
      ([s].find? (fun r => r.spotRequestId == id)) := List.find?_append
  rw [hfind, find_deleteByID]
  by_cases h : s.spotRequestId = id
  · simp [h]
  · simp [h, Ne.symm h]

/-- Of the records added, the last one under an id stays. -/
theorem find_foldl_add (l : List SpotRequest) (c : SetOfSpotRequests) (id : String) :
    (l.foldl add c).find id
      = (l.reverse.find? (fun r => r.spotRequestId == id)).or (c.find id) := by
  induction l generalizing c with
  | nil => simp
  | cons s l ih =>
    rw [List.foldl_cons, ih, List.reverse_cons, List.find?_append, find_add, Option.or_assoc]
    by_cases h : s.spotRequestId = id <;> simp [h]

theorem find_reverse (c : SetOfSpotRequests) (id : String) :
    c.reqs.reverse.find? (fun r => r.spotRequestId == id) = c.find id := by
  let reversed : SetOfSpotRequests :=
    ⟨c.reqs.reverse, by rw [List.map_reverse]; exact List.nodup_reverse.mpr c.nodup⟩
  refine Option.ext fun r => ?_
  refine (reversed.find_eq_some).trans (Iff.trans ?_ c.find_eq_some.symm)
  simp [reversed]

/-- The set of the requests of an answer. -/
def ofAnswer (response : List SpotRequest) : SetOfSpotRequests := response.foldl add empty

theorem mem_of_ofAnswer {response : List SpotRequest} {r : SpotRequest}
    (h : r ∈ (ofAnswer response).reqs) : r ∈ response := by
  have hfind := (find_eq_some _).mpr ⟨h, rfl⟩
  rw [ofAnswer, find_foldl_add, find_empty, Option.or_none] at hfind
  exact List.mem_reverse.mp (List.mem_of_find?_eq_some hfind)

/-- Adding a set to another. -/
theorem find_foldl_add_set (c set2 : SetOfSpotRequests) (id : String) :
    (set2.reqs.foldl add c).find id = (set2.find id).or (c.find id) := by
  rw [find_foldl_add, find_reverse]

end SetOfSpotRequests

/-! ### The answers of a listing -/

structure Ec2Instance where
  instanceId : String
  launchTime : ℤ
  state : String
  deriving DecidableEq, Repr

/-- What AWS answers a listing: which requests are open or active, what it knows about requests it
    is asked for by id, which canceled requests have an instance running, and the instances it is
    asked for. -/
structure ListAnswers where
  active : Answer
  byID : List String → Answer
  canceled : Answer
  instances : List String → Except CallError (List Ec2Instance)

/-- An error and the context it is wrapped in. -/
structure WrappedError where
  message : String
  cause : CallError
  deriving DecidableEq, Repr

structure ListOutcome where
  result : Except WrappedError (List Instance)
  spot : SpotState
  terminated : List String := []
  reported : List SpotRequest := []

def listSpotRequestsByID (answers : ListAnswers) (spotRequestIds : List String) : Answer :=
  if spotRequestIds = [] then .ok [] else answers.byID spotRequestIds

def describeInstancesByID (answers : ListAnswers) (instanceIds : List String) :
    Except CallError (List Ec2Instance) :=
  if instanceIds = [] then .ok [] else answers.instances instanceIds

def stateFromEC2State (state : String) : InstanceState :=
  if state = "pending" then .starting
  else if state = "running" then .running
  else if state = "stopped" then .stopped
  else if state = "stopping" then .stopping
  else if state = "shutting-down" then .terminating
  else .unknown

def newInstances (input : List Ec2Instance) : List Instance :=
  input.map fun inst =>
    { id := inst.instanceId, launchTime := inst.launchTime, agentName := inst.instanceId
      state := stateFromEC2State inst.state }

/-- The instance that stands for a request without one. -/
def pendingInstance (activeRequest : SpotRequest) : Instance :=
  { id := activeRequest.spotRequestId, launchTime := activeRequest.creationTime
    agentName := activeRequest.spotRequestId, state := .spotRequestPendingAWS }

def Ec2Instance.nonTerminal (inst : Ec2Instance) : Bool :=
  inst.state != "terminated" && inst.state != "shutting-down"

def runningSpotInstanceIds (spot : SpotState) : List String :=
  (spot.trackedReqs.reqs.filterMap (·.instanceId)).dedup

def buildInstanceListFromTrackedReqs (spot : SpotState) (answers : ListAnswers) :
    Except WrappedError (List Instance) :=
  let pending := (spot.trackedReqs.reqs.filter (·.instanceId.isNone)).map pendingInstance
  match describeInstancesByID answers (runningSpotInstanceIds spot) with
  | .error e => .error ⟨"cannot describe EC2 instances", e⟩
  | .ok instancesToReturn =>
    .ok (newInstances (instancesToReturn.filter (·.nonTerminal)) ++ pending)

def SpotRequest.isLive (req : SpotRequest) : Bool := req.state == "active" || req.state == "open"

/-- The requests that are open or active are tracked, whether they were before or not. -/
def trackActive (spot : SpotState) (activeReqsInAPI : SetOfSpotRequests) : SpotState :=
  { spot with trackedReqs := activeReqsInAPI.reqs.foldl .add spot.trackedReqs }

/-- The requests found in a state other than these are not tracked any longer. -/
def dropInactive (spot : SpotState) (newOrInactiveReqs : SetOfSpotRequests) : SpotState :=
  { spot with
    trackedReqs := newOrInactiveReqs.reqs.foldl
      (fun reqs req => if req.isLive then reqs else reqs.delete req) spot.trackedReqs }

def listSpot (spot : SpotState) (answers : ListAnswers) : ListOutcome :=
  let wrap (e : CallError) : WrappedError := ⟨"cannot describe EC2 spot requests", e⟩
  match answers.active with
  | .error e => { result := .error (wrap e), spot }
  | .ok active =>
    let activeReqsInAPI := SetOfSpotRequests.ofAnswer active
    let spot := trackActive spot activeReqsInAPI
    let missingReqs := spot.trackedReqs.deleteIntersection activeReqsInAPI
    match listSpotRequestsByID answers missingReqs.ids with
    | .error e => { result := .error (wrap e), spot, reported := active }
    | .ok byID =>
      let spot := dropInactive spot (.ofAnswer byID)
      match answers.canceled with
      | .error e => { result := .error (wrap e), spot, reported := active ++ byID }
      | .ok canceled =>
        { result := buildInstanceListFromTrackedReqs spot answers, spot
          terminated := (SetOfSpotRequests.ofAnswer canceled).reqs.filterMap (·.instanceId)
          reported := active ++ byID ++ canceled }

/-! ### Histories -/

inductive SpotEvent where
  | launchSpot (instanceNum : ℤ) (replies : ℕ → Reply)
  | listSpot (answers : ListAnswers)

def spotStep (spot : SpotState) : SpotEvent → SpotState
  | .launchSpot instanceNum replies => (launchSpot spot instanceNum replies).spot
  | .listSpot answers => (listSpot spot answers).spot

/-- The state after a sequence of calls. -/
def after (spot : SpotState) (es : List SpotEvent) : SpotState := es.foldl spotStep spot

/-- The requests a call launched. -/
def launchedBy (spot : SpotState) : SpotEvent → List SpotRequest
  | .launchSpot instanceNum replies =>
    match (launchSpot spot instanceNum replies).result with
    | .ok resp => resp
    | .error _ => []
  | .listSpot _ => []

/-- The records a call found to be in a state other than open or active. -/
def reportedOffBy (spot : SpotState) : SpotEvent → List SpotRequest
  | .launchSpot _ _ => []
  | .listSpot answers => (listSpot spot answers).reported.filter (fun req => !req.isLive)

/-- The records a call leaves in the set: those of what it launched, which has no instance yet, and
    those of a listing of what is open or active. -/
def recordedBy (spot : SpotState) : SpotEvent → List SpotRequest
  | .launchSpot instanceNum replies =>
    (launchedBy spot (.launchSpot instanceNum replies)).map fun r => { r with instanceId := none }
  | .listSpot answers =>
    match answers.active with
    | .ok active => active
    | .error _ => []

/-- All that the calls of a sequence add to, one after the other. -/
def collect {α : Type} (f : SpotState → SpotEvent → List α) : SpotState → List SpotEvent → List α
  | _, [] => []
  | spot, e :: es => f spot e ++ collect f (spotStep spot e) es

theorem collect_snoc {α : Type} (f : SpotState → SpotEvent → List α) (spot : SpotState)
    (es : List SpotEvent) (e : SpotEvent) :
    collect f spot (es ++ [e]) = collect f spot es ++ f (after spot es) e := by
  induction es generalizing spot with
  | nil => simp [collect, after]
  | cons e' es ih => simp [collect, after, ih, List.append_assoc]

theorem after_snoc (spot : SpotState) (es : List SpotEvent) (e : SpotEvent) :
    after spot (es ++ [e]) = spotStep (after spot es) e := by
  simp [after]

/-- The last record of a request that a sequence of calls left in the set. -/
def lastRecord (es : List SpotEvent) (id : String) : Option SpotRequest :=
  (collect recordedBy .new es).reverse.find? (fun r => r.spotRequestId == id)

/-- A sequence of calls came to see the request in a state other than open or active. -/
def ReportedOff (es : List SpotEvent) (id : String) : Prop :=
  ∃ req ∈ collect reportedOffBy .new es, req.spotRequestId = id

/-! ### What a call does to one request -/

theorem find_dropInactive (spot : SpotState) (reqs : SetOfSpotRequests) {id : String}
    (h : ∀ req ∈ reqs.reqs, req.spotRequestId = id → req.isLive = true) :
    (dropInactive spot reqs).trackedReqs.find id = spot.trackedReqs.find id := by
  obtain ⟨l, _⟩ := reqs
  simp only [dropInactive] at h ⊢
  generalize spot.trackedReqs = tracked
  clear * - h
  induction l generalizing tracked with
  | nil => rfl
  | cons req l ih =>
    rw [List.foldl_cons, ih (fun req hreq => h req (List.mem_cons_of_mem _ hreq))]
    split
    · rfl
    · next hoff =>
      rw [SetOfSpotRequests.delete, SetOfSpotRequests.find_deleteByID, if_neg]
      rintro rfl
      exact hoff (h req (List.mem_cons_self ..) rfl)

/-- Unless a listing finds the request in another state, the record it leaves is the last one it got
    of the requests open or active, or else the one that was there. -/
theorem find_listSpot (spot : SpotState) (answers : ListAnswers) {id : String}
    (h : ∀ req ∈ (listSpot spot answers).reported, req.spotRequestId = id → req.isLive = true) :
    (listSpot spot answers).spot.trackedReqs.find id
      = ((recordedBy spot (.listSpot answers)).reverse.find?
          (fun r => r.spotRequestId == id)).or (spot.trackedReqs.find id) := by
  have htrack : ∀ active, (trackActive spot (.ofAnswer active)).trackedReqs.find id
      = (active.reverse.find? (fun r => r.spotRequestId == id)).or (spot.trackedReqs.find id) := by
    intro active
    rw [trackActive, SetOfSpotRequests.find_foldl_add_set, SetOfSpotRequests.ofAnswer,
      SetOfSpotRequests.find_foldl_add, SetOfSpotRequests.find_empty, Option.or_none]
  simp only [listSpot, recordedBy] at h ⊢
  cases hactive : answers.active with
  | error e => simp
  | ok active =>
    simp only [hactive] at h ⊢
    split at h
    · exact htrack active
    · next byID _ =>
      have hlive : ∀ req ∈ (SetOfSpotRequests.ofAnswer byID).reqs, req.spotRequestId = id →
          req.isLive = true := by
        intro req hreq
        have hmem := SetOfSpotRequests.mem_of_ofAnswer hreq
        split at h <;> exact h req (by simp [hmem])
      split <;> exact (find_dropInactive _ _ hlive).trans (htrack active)

/-- A launch leaves the records of what it launched. -/
theorem find_launchSpot (spot : SpotState) (instanceNum : ℤ) (replies : ℕ → Reply) (id : String) :
    (launchSpot spot instanceNum replies).spot.trackedReqs.find id
      = ((recordedBy spot (.launchSpot instanceNum replies)).reverse.find?
          (fun r => r.spotRequestId == id)).or (spot.trackedReqs.find id) := by
  have hkeep := correctingLoop_trackedReqs instanceNum false replies maxRetries 0 spot
  simp only [recordedBy, launchedBy, launchSpot,
    createSpotInstanceRequestsCorrectingForClockSkew]
  by_cases hneg : instanceNum < 0
  · simp [hneg]
  · simp only [hneg, if_false]
    cases hresult : (correctingLoop instanceNum false replies maxRetries 0 spot).result with
    | error e => simp [hresult, hkeep]
    | ok resp =>
      rw [hkeep, ← SetOfSpotRequests.find_foldl_add, List.foldl_map]

/-- The history of a request: as long as no answer showed it in a state other than open or active,
    the record in the set is the last one that a call left there. -/
theorem find_after (es : List SpotEvent) {id : String} (h : ¬ ReportedOff es id) :
    (after .new es).trackedReqs.find id = lastRecord es id := by
  induction es using List.reverseRecOn with
  | nil => rfl
  | append_singleton es e ih =>
    simp only [ReportedOff, collect_snoc, List.mem_append, not_exists, not_and] at h
    have hbefore := ih (by
      rintro ⟨req, hreq, hid⟩
      exact h req (.inl hreq) hid)
    rw [after_snoc, lastRecord, collect_snoc, List.reverse_append, List.find?_append,
      ← lastRecord, ← hbefore]
    cases e with
    | launchSpot instanceNum replies => exact find_launchSpot _ instanceNum replies id
    | listSpot answers =>
      refine find_listSpot _ answers fun req hreq hid => ?_
      by_contra hoff
      exact h req (.inr (List.mem_filter.mpr ⟨hreq, by simpa using hoff⟩)) hid

/-- What was launched has a record. -/
theorem lastRecord_isSome {es : List SpotEvent} {req : SpotRequest}
    (h : req ∈ collect launchedBy .new es) : ∃ r, lastRecord es req.spotRequestId = some r := by
  rw [← Option.isSome_iff_exists, lastRecord, List.find?_isSome]
  induction es using List.reverseRecOn with
  | nil => simp [collect] at h
  | append_singleton es e ih =>
    rw [collect_snoc, List.mem_append] at h
    rw [collect_snoc]
    rcases h with h | h
    · obtain ⟨r, hr, hid⟩ := ih h
      exact ⟨r, by simp only [List.mem_reverse, List.mem_append] at hr ⊢; exact .inl hr, hid⟩
    · cases e with
      | listSpot answers => simp [launchedBy] at h
      | launchSpot instanceNum replies =>
        refine ⟨{ req with instanceId := none }, ?_, by simp⟩
        simp only [List.mem_reverse, List.mem_append, recordedBy, List.mem_map]
        exact .inr ⟨req, h, rfl⟩

/-! ### The instances listed -/

/-- AWS describes each instance it is asked for once, and no other. -/
def ListAnswers.Complete (answers : ListAnswers) : Prop :=
  ∀ ids d, answers.instances ids = .ok d →
    (d.map (·.instanceId)).Nodup ∧ ∀ i, i ∈ d.map (·.instanceId) ↔ i ∈ ids

/-- An entry of a listing stands for a request: for the request itself while it is pending, and for
    an EC2 instance otherwise. -/
def Instance.isEntryOf (id : String) (known : Option String) (e : Instance) : Bool :=
  (e.state == .spotRequestPendingAWS && e.id == id) ||
    (e.state != .spotRequestPendingAWS && some e.id == known)

theorem stateFromEC2State_ne (state : String) :
    stateFromEC2State state ≠ .spotRequestPendingAWS := by
  simp only [stateFromEC2State]
  split_ifs <;> decide

theorem countP_newInstances (id : String) (known : Option String) (d : List Ec2Instance) :
    (newInstances d).countP (·.isEntryOf id known)
      = d.countP (fun inst => some inst.instanceId == known) := by
  rw [newInstances, List.countP_map]
  refine List.countP_congr fun inst _ => ?_
  simp [Instance.isEntryOf, stateFromEC2State_ne]

theorem countP_pendingInstance (id : String) (known : Option String) (l : List SpotRequest) :
    (l.map pendingInstance).countP (·.isEntryOf id known)
      = (l.map (·.spotRequestId)).count id := by
  rw [List.countP_map, List.count, List.countP_map]
  refine List.countP_congr fun r _ => ?_
  simp [Instance.isEntryOf, pendingInstance]

theorem describeInstancesByID_complete {answers : ListAnswers} (h : answers.Complete)
    {ids : List String} {d : List Ec2Instance} (hd : describeInstancesByID answers ids = .ok d) :
    (d.map (·.instanceId)).Nodup ∧ ∀ i, i ∈ d.map (·.instanceId) ↔ i ∈ ids := by
  simp only [describeInstancesByID] at hd
  split at hd
  · next hnil =>
    cases hd
    simp [hnil]
  · exact h ids d hd

/-- A tracked request has one entry in the listing, unless its instance is described as shutting
    down or terminated. -/
theorem countP_buildInstanceList {spot : SpotState} {answers : ListAnswers}
    (hcomplete : answers.Complete) {req : SpotRequest} (hreq : req ∈ spot.trackedReqs.reqs)
    {d : List Ec2Instance}
    (hd : describeInstancesByID answers (runningSpotInstanceIds spot) = .ok d)
    (hlive : ∀ inst ∈ d, some inst.instanceId = req.instanceId → inst.nonTerminal = true) :
    (newInstances (d.filter (·.nonTerminal)) ++
      (spot.trackedReqs.reqs.filter (·.instanceId.isNone)).map pendingInstance).countP
        (·.isEntryOf req.spotRequestId req.instanceId) = 1 := by
  obtain ⟨hnodup, hmem⟩ := describeInstancesByID_complete hcomplete hd
  have hids : ((spot.trackedReqs.reqs.filter (·.instanceId.isNone)).map
      (·.spotRequestId)).Nodup :=
    spot.trackedReqs.nodup.sublist (List.filter_sublist.map _)
  rw [List.countP_append, countP_newInstances, countP_pendingInstance, hids.count]
  cases hinstance : req.instanceId with
  | none =>
    rw [if_pos (List.mem_map.mpr ⟨req, List.mem_filter.mpr ⟨hreq, by simp [hinstance]⟩, rfl⟩)]
    simp
  | some i =>
    have hasked : i ∈ runningSpotInstanceIds spot :=
      List.mem_dedup.mpr (List.mem_filterMap.mpr ⟨req, hreq, hinstance⟩)
    obtain ⟨inst, hinst, hi⟩ := List.mem_map.mp ((hmem i).mpr hasked)
    have hcount : (d.filter (·.nonTerminal)).countP (fun inst => some inst.instanceId == some i)
        = ((d.filter (·.nonTerminal)).map (·.instanceId)).count i := by
      rw [List.count, List.countP_map]
      exact List.countP_congr fun _ _ => by simp
    rw [hcount, (hnodup.sublist (List.filter_sublist.map _)).count, if_pos (List.mem_map.mpr ⟨inst, List.mem_filter.mpr
        ⟨hinst, hlive inst hinst (by rw [hinstance, hi])⟩, hi⟩), if_neg]
    intro hpending
    obtain ⟨r, hr, hid⟩ := List.mem_map.mp hpending
    rw [List.mem_filter] at hr
    rw [List.inj_on_of_nodup_map spot.trackedReqs.nodup hr.1 hreq hid, hinstance] at hr
    simp at hr

/-- The entry of a request is under the id of its instance, or else under its own. -/
theorem id_of_isEntryOf {spot : SpotState} {req : SpotRequest}
    (hreq : req ∈ spot.trackedReqs.reqs) {d : List Ec2Instance} {e : Instance}
    (he : e ∈ newInstances (d.filter (·.nonTerminal)) ++
      (spot.trackedReqs.reqs.filter (·.instanceId.isNone)).map pendingInstance)
    (hentry : e.isEntryOf req.spotRequestId req.instanceId = true) :
    e.id = req.instanceId.getD req.spotRequestId := by
  rcases List.mem_append.mp he with he | he
  · obtain ⟨inst, _, rfl⟩ := List.mem_map.mp he
    have hknown : some inst.instanceId = req.instanceId := by
      simpa [Instance.isEntryOf, stateFromEC2State_ne] using hentry
    simp [← hknown]
  · obtain ⟨r, hr, rfl⟩ := List.mem_map.mp he
    have hid : r.spotRequestId = req.spotRequestId := by
      simpa [Instance.isEntryOf, pendingInstance] using hentry
    rw [List.mem_filter] at hr
    rw [List.inj_on_of_nodup_map spot.trackedReqs.nodup hr.1 hreq hid] at hr
    rw [Option.isNone_iff_eq_none.mp hr.2]
    exact hid

/-- A listing that succeeds is built from the requests it leaves tracked. -/
theorem listSpot_result {spot : SpotState} {answers : ListAnswers} {instances : List Instance}
    (h : (listSpot spot answers).result = .ok instances) :
    ∃ d, describeInstancesByID answers (runningSpotInstanceIds (listSpot spot answers).spot) = .ok d ∧
      instances = newInstances (d.filter (·.nonTerminal)) ++
        ((listSpot spot answers).spot.trackedReqs.reqs.filter (·.instanceId.isNone)).map
          pendingInstance := by
  have hbuild : buildInstanceListFromTrackedReqs (listSpot spot answers).spot answers
      = .ok instances := by
    simp only [listSpot] at h ⊢
    split at h
    · cases h
    · split at h
      · cases h
      · split at h
        · cases h
        · exact h
  simp only [buildInstanceListFromTrackedReqs] at hbuild
  split at hbuild
  · cases hbuild
  · next d hd =>
    cases hbuild
    exact ⟨d, hd, rfl⟩

/-- CORRECT: after a successful listing every request launched before it, and not yet found in a
    state other than open or active, is tracked, and has one entry among the instances: its own
    while its last record has no instance, and that instance's otherwise, unless the instance is
    shutting down or terminated. -/
theorem listSpot_never_undercounts (es : List SpotEvent) (answers : ListAnswers)
    (hcomplete : answers.Complete) {instances : List Instance}
    (hlist : (listSpot (after .new es) answers).result = .ok instances) {req : SpotRequest}
    (hlaunched : req ∈ collect launchedBy .new es)
    (hopen : ¬ ReportedOff (es ++ [.listSpot answers]) req.spotRequestId) :
    ∃ r, lastRecord (es ++ [.listSpot answers]) req.spotRequestId = some r ∧
      (listSpot (after .new es) answers).spot.trackedReqs.find req.spotRequestId = some r ∧
      ∃ d, describeInstancesByID answers
          (runningSpotInstanceIds (listSpot (after .new es) answers).spot) = .ok d ∧
        ((∀ inst ∈ d, some inst.instanceId = r.instanceId → inst.nonTerminal = true) →
          instances.countP (·.isEntryOf req.spotRequestId r.instanceId) = 1) ∧
        ∀ e ∈ instances, e.isEntryOf req.spotRequestId r.instanceId = true →
          e.id = r.instanceId.getD req.spotRequestId := by
  have hlaunched' : req ∈ collect launchedBy .new (es ++ [.listSpot answers]) := by
    rw [collect_snoc]
    exact List.mem_append_left _ hlaunched
  obtain ⟨r, hr⟩ := lastRecord_isSome hlaunched'
  have hfind := find_after (es ++ [.listSpot answers]) hopen
  rw [after_snoc, hr] at hfind
  obtain ⟨hmem, hid⟩ := (SetOfSpotRequests.find_eq_some _).mp hfind
  obtain ⟨d, hd, rfl⟩ := listSpot_result hlist
  rw [← hid]
  rw [← hid] at hr hfind
  exact ⟨r, hr, hfind, d, hd, countP_buildInstanceList hcomplete hmem hd,
    fun e he hentry => id_of_isEntryOf hmem he hentry⟩

/-- One request, launched at the first attempt. -/
def launchedRequest : SpotRequest := ⟨"sir-1", "open", "pending-evaluation", none, none, 0⟩

def launchOne : SpotEvent := .launchSpot 1 fun _ => ⟨0, 0, .ok [launchedRequest]⟩

/-- Answers that describe each instance asked for as running. -/
def answersOf (active : List SpotRequest) (byID : List SpotRequest) : ListAnswers :=
  ⟨.ok active, fun _ => .ok byID, .ok [], fun ids => .ok (ids.dedup.map (⟨·, 0, "running"⟩))⟩

theorem answersOf_complete (active byID : List SpotRequest) :
    (answersOf active byID).Complete := by
  intro ids d hd
  cases hd
  simp [Function.comp_def, List.nodup_dedup]

/-- The request as it is once an instance was started for it. -/
def fulfilledRequest : SpotRequest :=
  { launchedRequest with state := "active", statusCode := "fulfilled", instanceId := some "i-1" }

theorem listSpot_never_undercounts_fulfilled :
    (listSpot (after .new [launchOne]) (answersOf [fulfilledRequest] [])).spot.trackedReqs.find
        "sir-1" = some fulfilledRequest ∧
      [(⟨"i-1", 0, "i-1", .running⟩ : Instance)].countP (·.isEntryOf "sir-1" (some "i-1")) = 1 := by
  have hopen : ¬ ReportedOff ([launchOne] ++ [.listSpot (answersOf [fulfilledRequest] [])])
      launchedRequest.spotRequestId := by
    rintro ⟨req, hreq, _⟩
    rw [show collect reportedOffBy .new ([launchOne] ++
      [.listSpot (answersOf [fulfilledRequest] [])]) = [] by decide +kernel] at hreq
    cases hreq
  have hlist : (listSpot (after .new [launchOne]) (answersOf [fulfilledRequest] [])).result
      = .ok [⟨"i-1", 0, "i-1", .running⟩] := by decide +kernel
  have hlaunched : launchedRequest ∈ collect launchedBy .new [launchOne] := by decide +kernel
  obtain ⟨r, hr, hfind, d, hd, hcount, _⟩ :=
    listSpot_never_undercounts [launchOne] (answersOf [fulfilledRequest] [])
      (answersOf_complete _ _) hlist hlaunched hopen
  have hlast : lastRecord ([launchOne] ++ [.listSpot (answersOf [fulfilledRequest] [])]) "sir-1"
      = some fulfilledRequest := by decide +kernel
  obtain rfl : r = fulfilledRequest := Option.some.inj (hr.symm.trans hlast)
  have hdescribed : describeInstancesByID (answersOf [fulfilledRequest] [])
      (runningSpotInstanceIds (listSpot (after .new [launchOne])
        (answersOf [fulfilledRequest] [])).spot) = .ok [⟨"i-1", 0, "running"⟩] := by
    decide +kernel
  obtain rfl : d = [⟨"i-1", 0, "running"⟩] := Except.ok.inj (hd.symm.trans hdescribed)
  exact ⟨hfind, hcount (by decide)⟩

/-- An instance that AWS names only when it is asked for the request by id stays unknown: the
    request is listed as pending. -/
theorem instance_told_but_not_kept :
    (listSpot (after .new [launchOne]) (answersOf [] [fulfilledRequest])).result
        = .ok [⟨"sir-1", 0, "sir-1", .spotRequestPendingAWS⟩] ∧
      fulfilledRequest ∈
        (listSpot (after .new [launchOne]) (answersOf [] [fulfilledRequest])).reported ∧
      fulfilledRequest.isLive = true ∧ fulfilledRequest.spotRequestId = "sir-1" ∧
      fulfilledRequest.instanceId = some "i-1" := by
  decide +kernel

end Determined.Provisioner
