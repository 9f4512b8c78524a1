import Mathlib

/-! Creating spot requests (`internal/provisioner/aws_spot.go`, `aws_spot_collections.go`).

    Times and durations are integers, in nanoseconds. What AWS answers and what the clocks show are
    inputs: each attempt to create requests comes with the local reading its start time is computed
    from, AWS's own time when the attempt arrives there, and the answer. Of the request itself the
    model keeps the three parameters the functions set. -/

namespace Determined.Provisioner

def second : ℤ := 1000000000

structure SpotRequest where
  spotRequestId : String
  state : String
  statusCode : String
  statusMessage : Option String
  instanceId : Option String
  creationTime : ℤ
  deriving DecidableEq, Repr

/-- A set of requests, each under its own id. -/
structure SetOfSpotRequests where
  reqs : List SpotRequest
  nodup : (reqs.map (·.spotRequestId)).Nodup

namespace SetOfSpotRequests

def empty : SetOfSpotRequests := ⟨[], List.nodup_nil⟩

def ids (c : SetOfSpotRequests) : List String := c.reqs.map (·.spotRequestId)

/-- The ids other than one are those of the other requests. -/
theorem ids_filter (l : List SpotRequest) (p : String → Bool) :
    (l.filter (fun r => p r.spotRequestId)).map (·.spotRequestId)
      = (l.map (·.spotRequestId)).filter p := by
  rw [List.filter_map]
  rfl

def deleteByID (c : SetOfSpotRequests) (id : String) : SetOfSpotRequests where
  reqs := c.reqs.filter (fun r => decide (r.spotRequestId ≠ id))
  nodup := by
    rw [ids_filter c.reqs (fun i => decide (i ≠ id))]
    exact c.nodup.filter _

def delete (c : SetOfSpotRequests) (s : SpotRequest) : SetOfSpotRequests :=
  c.deleteByID s.spotRequestId

def add (c : SetOfSpotRequests) (s : SpotRequest) : SetOfSpotRequests where
  reqs := (c.deleteByID s.spotRequestId).reqs ++ [s]
  nodup := by
    rw [List.map_append, List.nodup_append]
    refine ⟨(c.deleteByID s.spotRequestId).nodup, by simp, ?_⟩
    simp only [deleteByID, List.mem_map, List.mem_filter, decide_eq_true_eq]
    rintro a ⟨r, ⟨_, hne⟩, rfl⟩ b ⟨s', hs', rfl⟩
    rw [List.mem_singleton.mp hs']
    exact hne

/-- `deleteIntersection` drops what is in both sets. -/
def deleteIntersection (c set2 : SetOfSpotRequests) : SetOfSpotRequests :=
  set2.reqs.foldl (fun c req => c.deleteByID req.spotRequestId) c

/-- The request under an id. -/
def find (c : SetOfSpotRequests) (id : String) : Option SpotRequest :=
  c.reqs.find? (fun r => r.spotRequestId == id)

end SetOfSpotRequests

/-- What the provisioner remembers about its spot requests. -/
structure SpotState where
  trackedReqs : SetOfSpotRequests
  approximateClockSkew : ℤ
  launchTimeOffset : ℤ

/-- The state a cluster starts with. -/
def SpotState.new : SpotState := ⟨.empty, second * 0, second * 10⟩

def launchTimeOffsetGrowth : ℤ := second * 10

/-- An error of a call to the API: one of AWS, or any other. -/
inductive CallError where
  | aws (code message : String)
  | other (text : String)
  deriving DecidableEq, Repr

/-- AWS's error for a start time that is not in its future. -/
def CallError.isInvalidTime : CallError → Bool
  | .aws code _ => code == "InvalidTime"
  | .other _ => false

/-- The parameters of a request that depend on the call. -/
structure RequestSpotInstancesInput where
  dryRun : Bool
  instanceCount : ℤ
  validFrom : ℤ
  deriving DecidableEq, Repr

abbrev Answer := Except CallError (List SpotRequest)

def Answer.isInvalidTime : Answer → Bool
  | .ok _ => false
  | .error e => e.isInvalidTime

/-- What meets one attempt: the local clock, AWS's clock, and the answer. -/
structure Reply where
  now : ℤ
  awsNow : ℤ
  answer : Answer

/-- An attempt as it was made, with the skew and the offset in force. -/
structure Attempt extends Reply where
  approximateClockSkew : ℤ
  launchTimeOffset : ℤ
  input : RequestSpotInstancesInput

def createSpotInstanceRequest (spot : SpotState) (now : ℤ) (numInstances : ℤ)
    (launchTimeOffset : ℤ) (dryRun : Bool) : RequestSpotInstancesInput :=
  { dryRun, instanceCount := numInstances
    validFrom := now + spot.approximateClockSkew + launchTimeOffset }

/-- The attempt of one turn of the loop. -/
def SpotState.attempt (spot : SpotState) (numInstances : ℤ) (dryRun : Bool) (reply : Reply) :
    Attempt :=
  let offset := spot.approximateClockSkew + spot.launchTimeOffset
  { reply with
    approximateClockSkew := spot.approximateClockSkew
    launchTimeOffset := spot.launchTimeOffset
    input := createSpotInstanceRequest spot reply.now numInstances offset dryRun }

/-- What an error of AWS does to the offset. -/
def SpotState.afterError (spot : SpotState) (code : String) : SpotState :=
  if code = "InvalidTime" then
    { spot with launchTimeOffset := spot.launchTimeOffset + launchTimeOffsetGrowth }
  else spot

/-- How a call ended: its result, the state left, and the attempts made. -/
structure Outcome where
  result : Answer
  spot : SpotState
  attempts : List Attempt

/-- The loop from turn `numRetries` on, with `left` turns to follow it. -/
def correctingLoop (numInstances : ℤ) (dryRun : Bool) (replies : ℕ → Reply) :
    ℕ → ℕ → SpotState → Outcome
  | left, numRetries, spot =>
    let attempt := spot.attempt numInstances dryRun (replies numRetries)
    match (replies numRetries).answer with
    | .ok resp => ⟨.ok resp, spot, [attempt]⟩
    | .error (.other text) => ⟨.error (.other text), spot, [attempt]⟩
    | .error (.aws code message) =>
      match left with
      | 0 => ⟨.error (.aws code message), spot.afterError code, [attempt]⟩
      | left + 1 =>
        let rest := correctingLoop numInstances dryRun replies left (numRetries + 1)
          (spot.afterError code)
        { rest with attempts := attempt :: rest.attempts }

def maxRetries : ℕ := 5

def createSpotInstanceRequestsCorrectingForClockSkew (spot : SpotState) (numInstances : ℤ)
    (dryRun : Bool) (replies : ℕ → Reply) : Outcome :=
  correctingLoop numInstances dryRun replies maxRetries 0 spot

/-- `launchSpot`: what was launched is tracked, with no instance yet. -/
def launchSpot (spot : SpotState) (instanceNum : ℤ) (replies : ℕ → Reply) : Outcome :=
  if instanceNum < 0 then ⟨.ok [], spot, []⟩
  else
    let out := createSpotInstanceRequestsCorrectingForClockSkew spot instanceNum false replies
    match out.result with
    | .error _ => out
    | .ok resp =>
      let tracked := resp.foldl
        (fun (reqs : SetOfSpotRequests) request => reqs.add { request with instanceId := none })
        out.spot.trackedReqs
      { out with spot := { out.spot with trackedReqs := tracked } }

/-! ### Approximating the skew -/

/-- Rounding to a multiple, halves away from zero. -/
def round (d m : ℤ) : ℤ :=
  if d < 0 then
    let r := -(d.tmod m)
    if r + r < m then d + r else d - m + r
  else
    let r := d.tmod m
    if r + r < m then d - r else d + m - r

def roundDurationUp (d : ℤ) : ℤ :=
  let roundInterval := second * 10
  let rounded := round d roundInterval
  if rounded < d then rounded + roundInterval else rounded

/-- The clean-up loop over AWS's answers: whether the request was deleted, once that is settled. -/
def cleanUp : List (Option CallError) → Option Bool
  | [] => none
  | none :: _ => some true
  | some (.aws code _) :: rest =>
    if code = "InvalidSpotInstanceRequestID.NotFound" then cleanUp rest else some false
  | some (.other _) :: _ => some false

/-- `attemptToApproximateClockSkew`, with the local time it starts at, what answers its request
    and what answers its attempts to delete the request again. -/
def attemptToApproximateClockSkew (spot : SpotState) (localCreateTime : ℤ)
    (answer : Answer) (cancels : List (Option CallError)) : SpotState :=
  match answer with
  | .ok (first :: _) =>
    if cleanUp cancels = some true then
      { spot with
        approximateClockSkew := roundDurationUp (first.creationTime - localCreateTime) }
    else spot
  | _ => spot

/-- Rounding moves a duration by half a multiple at most. -/
theorem round_near (d : ℤ) {m : ℤ} (hm : 0 < m) :
    2 * d - m ≤ 2 * round d m ∧ 2 * round d m ≤ 2 * d + m := by
  have hlt : d.tmod m < m := Int.tmod_lt_of_pos d hm
  have hgt : -m < d.tmod m := Int.lt_tmod_of_pos d hm
  simp only [round]
  by_cases hd : d < 0
  · have hneg : 0 ≤ (-d).tmod m := Int.tmod_nonneg m (by omega)
    rw [Int.neg_tmod] at hneg
    simp only [hd, if_true]
    split_ifs <;> omega
  · have hpos : 0 ≤ d.tmod m := Int.tmod_nonneg m (by omega)
    simp only [hd, if_false]
    split_ifs <;> omega

/-- The skew is rounded up to the next ten seconds. -/
theorem roundDurationUp_bounds (d : ℤ) :
    d ≤ roundDurationUp d ∧ roundDurationUp d < d + second * 10 := by
  have hnear := round_near d (m := second * 10) (by decide)
  simp only [roundDurationUp]
  have hs : second = 1000000000 := rfl
  split_ifs <;> omega

/-! ### The start times -/

/-- AWS rejects a start time that is not in its future, and no other for its time. -/
def Attempt.ByTime (a : Attempt) : Prop :=
  a.answer.isInvalidTime = true ↔ a.input.validFrom ≤ a.awsNow

/-- The approximation of the skew errs by at most `e` when the attempt arrives. -/
def Attempt.ErrsBy (a : Attempt) (e : ℤ) : Prop :=
  |a.awsNow - (a.now + a.approximateClockSkew)| ≤ e

/-- The documented rule for start times, and what it is for. -/
structure Attempt.Documented (a : Attempt) : Prop where
  start : a.input.validFrom = a.now + a.approximateClockSkew + a.launchTimeOffset
  accepted : ∀ e, a.ByTime → a.ErrsBy e → e < a.launchTimeOffset → a.answer.isInvalidTime = false
  not_late : ∀ e, a.ByTime → a.ErrsBy e → a.answer.isOk = true →
    a.input.validFrom ≤ a.awsNow + a.launchTimeOffset + e

/-- The skew enters the start time twice. -/
theorem attempt_validFrom (spot : SpotState) (numInstances : ℤ) (dryRun : Bool) (reply : Reply) :
    (spot.attempt numInstances dryRun reply).input.validFrom
      = reply.now + 2 * spot.approximateClockSkew + spot.launchTimeOffset := by
  simp only [SpotState.attempt, createSpotInstanceRequest]
  omega

/-- What the rule is for follows from the rule. -/
theorem Attempt.documented_of_start {a : Attempt}
    (h : a.input.validFrom = a.now + a.approximateClockSkew + a.launchTimeOffset) :
    a.Documented := by
  refine ⟨h, ?_, ?_⟩
  · intro e hrule herr hlt
    have hfuture : ¬ a.input.validFrom ≤ a.awsNow := by
      have := (abs_le.mp herr).2
      omega
    exact Bool.eq_false_iff.mpr (mt hrule.mp hfuture)
  · intro e _ herr _
    have := (abs_le.mp herr).1
    omega

theorem attempt_documented_iff (spot : SpotState) (numInstances : ℤ) (dryRun : Bool)
    (reply : Reply) :
    (spot.attempt numInstances dryRun reply).Documented ↔ spot.approximateClockSkew = 0 := by
  constructor
  · intro h
    have hstart := h.start
    rw [attempt_validFrom] at hstart
    simp only [SpotState.attempt] at hstart
    omega
  · intro h
    refine Attempt.documented_of_start ?_
    rw [attempt_validFrom]
    simp only [SpotState.attempt]
    omega

@[simp] theorem afterError_skew (spot : SpotState) (code : String) :
    (spot.afterError code).approximateClockSkew = spot.approximateClockSkew := by
  simp only [SpotState.afterError]
  split <;> rfl

/-- Every attempt of a call is made with the skew the call began with, and the skew stays. -/
theorem correctingLoop_skew (numInstances : ℤ) (dryRun : Bool) (replies : ℕ → Reply)
    (left numRetries : ℕ) (spot : SpotState) :
    (∀ a ∈ (correctingLoop numInstances dryRun replies left numRetries spot).attempts,
      ∃ before : SpotState, ∃ reply, before.approximateClockSkew = spot.approximateClockSkew ∧
        a = before.attempt numInstances dryRun reply) ∧
    (correctingLoop numInstances dryRun replies left numRetries spot).spot.approximateClockSkew
      = spot.approximateClockSkew := by
  induction left generalizing numRetries spot with
  | zero =>
    unfold correctingLoop
    split <;> refine ⟨?_, by simp⟩ <;>
      exact fun a ha => ⟨spot, replies numRetries, rfl, List.mem_singleton.mp ha⟩
  | succ left ih =>
    unfold correctingLoop
    split
    · exact ⟨fun a ha => ⟨spot, replies numRetries, rfl, List.mem_singleton.mp ha⟩, rfl⟩
    · exact ⟨fun a ha => ⟨spot, replies numRetries, rfl, List.mem_singleton.mp ha⟩, rfl⟩
    · next code message _ =>
      obtain ⟨hattempts, hskew⟩ := ih (numRetries + 1) (spot.afterError code)
      rw [afterError_skew] at hskew
      refine ⟨fun a ha => ?_, hskew⟩
      rcases List.mem_cons.mp ha with rfl | ha
      · exact ⟨spot, replies numRetries, rfl, rfl⟩
      · obtain ⟨before, reply, hbefore, rfl⟩ := hattempts a ha
        exact ⟨before, reply, hbefore.trans (afterError_skew spot code), rfl⟩

/-- A call leaves the tracked requests alone. -/
theorem correctingLoop_trackedReqs (numInstances : ℤ) (dryRun : Bool) (replies : ℕ → Reply)
    (left numRetries : ℕ) (spot : SpotState) :
    (correctingLoop numInstances dryRun replies left numRetries spot).spot.trackedReqs
      = spot.trackedReqs := by
  have herror (spot : SpotState) (code : String) :
      (spot.afterError code).trackedReqs = spot.trackedReqs := by
    simp only [SpotState.afterError]
    split <;> rfl
  induction left generalizing numRetries spot with
  | zero =>
    unfold correctingLoop
    split
    · rfl
    · rfl
    · exact herror spot _
  | succ left ih =>
    unfold correctingLoop
    split
    · rfl
    · rfl
    · exact (ih (numRetries + 1) _).trans (herror spot _)

/-- A call begins with an attempt at the offset it finds. -/
theorem correctingLoop_first (numInstances : ℤ) (dryRun : Bool) (replies : ℕ → Reply)
    (left numRetries : ℕ) (spot : SpotState) :
    (correctingLoop numInstances dryRun replies left numRetries spot).attempts.head?
      = some (spot.attempt numInstances dryRun (replies numRetries)) := by
  unfold correctingLoop
  split
  · rfl
  · rfl
  · cases left <;> rfl

/-- The offset grows with every answer that the start time was not in the future, and with no
    other. -/
theorem correctingLoop_offsets (numInstances : ℤ) (dryRun : Bool) (replies : ℕ → Reply)
    (left numRetries : ℕ) (spot : SpotState) :
    (correctingLoop numInstances dryRun replies left numRetries spot).attempts.IsChain
      fun a b => b.launchTimeOffset
        = a.launchTimeOffset + if a.answer.isInvalidTime then launchTimeOffsetGrowth else 0 := by
  induction left generalizing numRetries spot with
  | zero =>
    unfold correctingLoop
    split <;> exact .singleton _
  | succ left ih =>
    unfold correctingLoop
    split
    · exact .singleton _
    · exact .singleton _
    · next code message hanswer =>
      refine List.isChain_cons.mpr ⟨?_, ih (numRetries + 1) (spot.afterError code)⟩
      intro b hb
      rw [correctingLoop_first, Option.mem_def, Option.some_inj] at hb
      subst hb
      simp only [SpotState.attempt, hanswer, Answer.isInvalidTime, CallError.isInvalidTime,
        SpotState.afterError, beq_iff_eq]
      split <;> simp

/-- With the skew left out, and AWS finding fault with start times only, a call succeeds when its
    offset can grow past the error of the approximation. -/
theorem created_of_offset (numInstances : ℤ) (dryRun : Bool) (replies : ℕ → Reply) (e : ℤ)
    (left numRetries : ℕ) (spot : SpotState) (hskew : spot.approximateClockSkew = 0)
    (hattempts : ∀ a ∈ (correctingLoop numInstances dryRun replies left numRetries spot).attempts,
      a.ByTime ∧ a.ErrsBy e ∧ (a.answer.isOk = true ∨ a.answer.isInvalidTime = true))
    (hlt : e < spot.launchTimeOffset + left * launchTimeOffsetGrowth) :
    (correctingLoop numInstances dryRun replies left numRetries spot).result.isOk = true := by
  induction left generalizing numRetries spot with
  | zero =>
    have hfirst := List.mem_of_mem_head? (Option.mem_def.mpr
      (correctingLoop_first numInstances dryRun replies 0 numRetries spot))
    obtain ⟨hrule, herr, hanswer⟩ := hattempts _ hfirst
    have hdoc := (attempt_documented_iff spot numInstances dryRun (replies numRetries)).mpr hskew
    have hvalid := hdoc.accepted e hrule herr (by simpa [SpotState.attempt] using hlt)
    rw [hvalid] at hanswer
    have hok : (replies numRetries).answer.isOk = true := by
      simpa [SpotState.attempt] using hanswer
    unfold correctingLoop
    split
    · rfl
    · next hreply => simp [hreply, Except.isOk, Except.toBool] at hok
    · next hreply => simp [hreply, Except.isOk, Except.toBool] at hok
  | succ left ih =>
    have hfirst := List.mem_of_mem_head? (Option.mem_def.mpr
      (correctingLoop_first numInstances dryRun replies (left + 1) numRetries spot))
    have hanswer := (hattempts _ hfirst).2.2
    simp only [SpotState.attempt] at hanswer
    unfold correctingLoop at hattempts ⊢
    split
    · rfl
    · next hreply =>
      simp [hreply, Except.isOk, Except.toBool, Answer.isInvalidTime,
        CallError.isInvalidTime] at hanswer
    · next code message hreply =>
      rw [hreply] at hattempts
      have hcode : code = "InvalidTime" := by
        simpa [hreply, Except.isOk, Except.toBool, Answer.isInvalidTime,
          CallError.isInvalidTime] using hanswer
      refine ih (numRetries + 1) (spot.afterError code) (by simpa using hskew) ?_ ?_
      · exact fun a ha => hattempts a (List.mem_cons_of_mem _ ha)
      · simp only [SpotState.afterError, hcode, if_true]
        push_cast at hlt
        linarith

/-- A call of `createSpotInstanceRequestsCorrectingForClockSkew`, with what meets its attempts. -/
structure Call where
  numInstances : ℤ
  dryRun : Bool
  replies : ℕ → Reply

def Call.run (c : Call) (spot : SpotState) : Outcome :=
  createSpotInstanceRequestsCorrectingForClockSkew spot c.numInstances c.dryRun c.replies

/-- All attempts of a sequence of calls. -/
def attemptsOf : SpotState → List Call → List Attempt
  | _, [] => []
  | spot, c :: cs => (c.run spot).attempts ++ attemptsOf (c.run spot).spot cs

/-- Without a skew every attempt of every call follows the documented rule. -/
theorem attemptsOf_documented (spot : SpotState) (cs : List Call)
    (hskew : spot.approximateClockSkew = 0) : ∀ a ∈ attemptsOf spot cs, a.Documented := by
  induction cs generalizing spot with
  | nil => simp [attemptsOf]
  | cons c cs ih =>
    obtain ⟨hattempts, hleft⟩ :=
      correctingLoop_skew c.numInstances c.dryRun c.replies maxRetries 0 spot
    intro a ha
    rcases List.mem_append.mp ha with ha | ha
    · obtain ⟨before, reply, hbefore, rfl⟩ := hattempts a ha
      exact (attempt_documented_iff before c.numInstances c.dryRun reply).mpr (hbefore.trans hskew)
    · exact ih (c.run spot).spot (hleft.trans hskew) a ha

/-- CORRECT: in every sequence of calls, whatever AWS answers, the attempts follow the documented
    rule for start times exactly when the approximate skew is zero. -/
theorem start_times_documented_iff (spot : SpotState) (c : Call) (cs : List Call) :
    (∀ a ∈ attemptsOf spot (c :: cs), a.Documented) ↔ spot.approximateClockSkew = 0 := by
  constructor
  · intro h
    have hfirst := List.mem_of_mem_head? (Option.mem_def.mpr
      (correctingLoop_first c.numInstances c.dryRun c.replies maxRetries 0 spot))
    exact (attempt_documented_iff spot c.numInstances c.dryRun (c.replies 0)).mp
      (h _ (List.mem_append_left _ hfirst))
  · exact attemptsOf_documented spot (c :: cs)

/-- AWS's clock is a little ahead, so the skew is taken to be ten seconds, and the first request
    asks for thirty seconds from now instead of twenty. -/
theorem skew_counted_twice :
    let probe : SpotRequest := ⟨"sir-1", "open", "pending-evaluation", none, none, 300000000⟩
    let spot := attemptToApproximateClockSkew SpotState.new 0 (.ok [probe]) [none]
    let reply : Reply := ⟨second * 60, second * 60 + 300000000, .ok [{ probe with
      spotRequestId := "sir-2", creationTime := second * 60 + 300000000 }]⟩
    let call : Call := ⟨1, false, fun _ => reply⟩
    spot.approximateClockSkew = second * 10 ∧ spot.launchTimeOffset = second * 10 ∧
      (attemptsOf spot [call]).map (·.input.validFrom) = [second * 90] ∧
      ¬ ∀ a ∈ attemptsOf spot [call], a.Documented := by
  intro probe spot reply call
  have hskew : spot.approximateClockSkew = second * 10 := by decide
  have hattempts : attemptsOf spot [call] = [spot.attempt 1 false reply] := rfl
  refine ⟨hskew, by decide, by rw [hattempts]; decide, fun h => ?_⟩
  have hdoc := h _ (by rw [hattempts]; exact List.mem_singleton_self _)
  rw [attempt_documented_iff, hskew] at hdoc
  exact absurd hdoc (by decide)

end Determined.Provisioner
