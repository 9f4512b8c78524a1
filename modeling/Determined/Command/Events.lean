import Determined.Api.Pagination
import Determined.Schemes.RingBuffer

/-! The event manager of a command (`internal/command/events.go`).

    The parent's id, the id and the time that an event is stamped with come with its message, and so
    does the sender of a request. Of the events the model keeps what log entries are made from. Web
    sockets and requests over HTTP are left out. -/

namespace Determined.Command
open Determined.Schemes Determined.Api

def defaultEventBufferSize : ℕ := 200

structure Event where
  description : String
  parentId : String
  id : String
  seq : ℤ
  time : ℤ
  scheduledEvent : Bool
  containerStartedEvent : Bool
  terminateRequestEvent : Bool
  exitedEvent : Option String
  logEvent : Option String
  deriving DecidableEq, Repr

/-- An entry of a log. -/
structure Entry where
  id : ℤ
  message : String
  time : ℤ
  deriving DecidableEq, Repr

structure EventManager where
  bufferSize : ℕ
  buffer : RingBuffer Event
  closed : Bool
  seq : ℤ
  isTerminated : Bool
  logStreams : List (ℕ × LogsRequest)

def newEventManager (bufferSize : ℕ) : EventManager :=
  ⟨bufferSize, .new bufferSize, false, 0, false, []⟩

/-- A message, with the sender of a request and what an event is stamped with. -/
inductive Message where
  | event (msg : Event) (parentId id : String) (time : ℤ)
  | logsRequest (sender : ℕ) (msg : LogsRequest)
  | closeStream (sender : ℕ)
  | postStop

inductive Sent where
  | respond (sender : ℕ)
  | batch (ref : ℕ) (entries : List Entry)
  | closeStream (ref : ℕ)
  deriving DecidableEq, Repr

/-- How many cells of a ring have a value. -/
def countNonNullRingValues (ring : RingBuffer Event) : ℕ := ring.values.length

/-- The entry of an event. The text of a log event is itself used as a format, by `sprintf`. -/
def eventToLogEntry (sprintf : String → String) (ev : Event) : Entry where
  id := ev.seq
  time := ev.time
  message :=
    if ev.scheduledEvent then "Scheduling " ++ ev.parentId ++ " (id: " ++ ev.description ++ ")"
    else if ev.containerStartedEvent then "Container of " ++ ev.description ++ " has started"
    else if ev.terminateRequestEvent then ev.description ++ " was requested to terminate"
    else match ev.exitedEvent, ev.logEvent with
      | some exited, _ => ev.description ++ " was terminated: " ++ exited
      | none, some log => sprintf log
      | none, none => ""

def eventSatisfiesLogRequest (req : LogsRequest) (event : Event) : Bool :=
  decide (req.offset ≤ event.seq)

/-- The loop over the ring, from its current cell on. -/
def getMatchingEvents (e : EventManager) (req : LogsRequest) : List Event :=
  (e.buffer.cells.take e.bufferSize).foldl
    (fun logs cell =>
      match cell with
      | none => logs
      | some event =>
        if eventSatisfiesLogRequest req event && (req.limit < 1 || logs.length < req.limit) then
          logs ++ [event]
        else logs) []

/-- `removeSusbscribers`. -/
def EventManager.removeSubscribers (e : EventManager) : EventManager × List Sent :=
  ({ e with logStreams := [] }, e.logStreams.map fun stream => .closeStream stream.1)

section Receive

variable (sprintf : String → String)

def processNewLogEvent (e : EventManager) (msg : Event) : EventManager × List Sent :=
  let entries := (e.logStreams.filter fun stream => eventSatisfiesLogRequest stream.2 msg).map
    fun stream => Sent.batch stream.1 [eventToLogEntry sprintf msg]
  if msg.terminateRequestEvent || msg.exitedEvent.isSome then
    let (e, closed) := { e with isTerminated := true }.removeSubscribers
    (e, entries ++ closed)
  else (e, entries)

def EventManager.receive (e : EventManager) : Message → EventManager × List Sent
  | .event msg parentId id time =>
    let msg := { msg with parentId, id, seq := e.seq, time }
    let e := { e with seq := e.seq + 1 }
    let e := if 0 < e.bufferSize then { e with buffer := e.buffer.push msg } else e
    let e := if msg.exitedEvent.isSome then { e with closed := true } else e
    processNewLogEvent sprintf e msg
  | .logsRequest sender msg =>
    let total := countNonNullRingValues e.buffer
    let msg := { msg with offset := effectiveOffset msg.offset total }
    let matchingEvents := getMatchingEvents e msg
    let logEntries := matchingEvents.map (eventToLogEntry sprintf)
    let limitMet := decide (0 < msg.limit) && decide (msg.limit ≤ matchingEvents.length)
    let sent := [.respond sender, .batch sender logEntries]
    if msg.follow && !e.isTerminated && !limitMet then
      let others := e.logStreams.filter fun stream => stream.1 != sender
      ({ e with logStreams := others ++ [(sender, msg)] }, sent)
    else (e, sent ++ [.closeStream sender])
  | .closeStream sender =>
    ({ e with logStreams := e.logStreams.filter fun stream => stream.1 != sender }, [])
  | .postStop => e.removeSubscribers

/-- The manager after a sequence of messages. -/
def EventManager.after (e : EventManager) (ms : List Message) : EventManager :=
  ms.foldl (fun e m => (e.receive sprintf m).1) e

end Receive

/-- The events among some messages, numbered from `n` on. -/
def numbered : ℤ → List Message → List Event
  | _, [] => []
  | n, .event msg parentId id time :: ms =>
    { msg with parentId, id, seq := n, time } :: numbered (n + 1) ms
  | n, .logsRequest _ _ :: ms | n, .closeStream _ :: ms | n, .postStop :: ms => numbered n ms

/-! ### What is buffered -/

variable {sprintf : String → String}

/-- The counter, the buffer and its size are all that an answer to a request is made from. -/
theorem receive_event (e : EventManager) (msg : Event) (parentId id : String) (time : ℤ) :
    let e' := (e.receive sprintf (.event msg parentId id time)).1
    e'.bufferSize = e.bufferSize ∧ e'.seq = e.seq + 1 ∧
      e'.buffer = if 0 < e.bufferSize then
        e.buffer.push { msg with parentId, id, seq := e.seq, time } else e.buffer := by
  simp only [EventManager.receive, processNewLogEvent, EventManager.removeSubscribers]
  by_cases hexited : msg.exitedEvent.isSome = true <;> by_cases hsize : 0 < e.bufferSize <;>
    cases msg.terminateRequestEvent <;> simp [hexited, hsize]

theorem receive_other (e : EventManager) (sender : ℕ) (req : LogsRequest) :
    let e' := (e.receive sprintf (.logsRequest sender req)).1
    e'.bufferSize = e.bufferSize ∧ e'.seq = e.seq ∧ e'.buffer = e.buffer := by
  simp only [EventManager.receive]
  split <;> exact ⟨rfl, rfl, rfl⟩

/-- The buffer is what the events of the messages were put into, one after the other. -/
theorem after_buffer (ms : List Message) (e : EventManager)
    (h : e.buffer.cells.length = e.bufferSize) :
    (e.after sprintf ms).bufferSize = e.bufferSize ∧
      (e.after sprintf ms).buffer = e.buffer.pushAll (numbered e.seq ms) := by
  induction ms generalizing e with
  | nil => exact ⟨rfl, rfl⟩
  | cons m ms ih =>
    rw [EventManager.after, List.foldl_cons, ← EventManager.after]
    cases m with
    | event msg parentId id time =>
      obtain ⟨hsize, hseq, hbuffer⟩ := @receive_event sprintf e msg parentId id time
      rw [RingBuffer.push_of_pos h] at hbuffer
      obtain ⟨hsize', hbuffer'⟩ := ih _ (by rw [hbuffer, RingBuffer.length_push, h, hsize])
      refine ⟨hsize'.trans hsize, ?_⟩
      rw [hbuffer', hseq, hbuffer]
      rfl
    | logsRequest sender req =>
      obtain ⟨hsize, hseq, hbuffer⟩ := @receive_other sprintf e sender req
      obtain ⟨hsize', hbuffer'⟩ := ih _ (by rw [hbuffer, h, hsize])
      exact ⟨hsize'.trans hsize, by rw [hbuffer', hseq, hbuffer]; rfl⟩
    | closeStream sender => exact ih _ h
    | postStop => exact ih _ h

/-- The events are numbered by their position. -/
theorem getElem?_numbered (ms : List Message) (n : ℤ) (i : ℕ) (ev : Event)
    (h : (numbered n ms)[i]? = some ev) : ev.seq = n + i := by
  induction ms generalizing n i with
  | nil => simp [numbered] at h
  | cons m ms ih =>
    cases m with
    | event msg parentId id time =>
      rw [numbered] at h
      cases i with
      | zero =>
        cases h
        simp
      | succ i =>
        have := ih (n + 1) i h
        push_cast
        omega
    | logsRequest sender req => exact ih n i h
    | closeStream sender => exact ih n i h
    | postStop => exact ih n i h

/-! ### The answer to a request -/

/-- The first events of a list, if there is a limit. -/
def limited (limit : ℤ) (l : List Event) : List Event :=
  if limit < 1 then l else l.take limit.toNat

theorem limited_snoc (limit : ℤ) (l : List Event) (ev : Event) :
    limited limit (l ++ [ev])
      = if limit < 1 ∨ (limited limit l).length < limit then limited limit l ++ [ev]
        else limited limit l := by
  simp only [limited]
  by_cases hnone : limit < 1
  · simp [hnone]
  · simp only [hnone, if_false, false_or, List.length_take, List.take_append]
    by_cases hlt : l.length < limit.toNat
    · rw [if_pos (by omega), List.take_of_length_le hlt.le, List.take_of_length_le (by simp; omega)]
    · rw [if_neg (by omega), show limit.toNat - l.length = 0 by omega]
      simp

/-- The loop selects the events that satisfy the request, up to its limit. -/
theorem getMatchingEvents_eq {e : EventManager} (h : e.buffer.cells.length = e.bufferSize)
    (req : LogsRequest) :
    getMatchingEvents e req
      = limited req.limit (e.buffer.values.filter (eventSatisfiesLogRequest req)) := by
  rw [getMatchingEvents, List.take_of_length_le h.le, RingBuffer.values]
  induction e.buffer.cells using List.reverseRecOn with
  | nil => simp [limited]
  | append_singleton cells cell ih =>
    rw [List.foldl_append, ih, List.foldl_cons, List.foldl_nil, List.filterMap_append,
      List.filter_append]
    cases cell with
    | none => simp
    | some ev =>
      by_cases hsat : eventSatisfiesLogRequest req ev = true
      · simp [hsat, limited_snoc]
      · simp [hsat]

/-- Of events numbered in a row, those from a number on. -/
theorem filter_numbered (l : List Event) (n offset : ℤ)
    (h : ∀ i ev, l[i]? = some ev → ev.seq = n + (i : ℕ)) :
    l.filter (fun ev => decide (offset ≤ ev.seq)) = l.drop (offset - n).toNat := by
  induction l generalizing n with
  | nil => simp
  | cons ev l ih =>
    have hseq := h 0 ev rfl
    have hrest := ih (n + 1) fun i ev' hev => by
      have := h (i + 1) ev' hev
      push_cast at this
      omega
    by_cases hle : offset ≤ n
    · rw [List.filter_cons_of_pos (by simp only [decide_eq_true_eq]; omega), hrest,
        show (offset - n).toNat = 0 by omega, show (offset - (n + 1)).toNat = 0 by omega]
      rfl
    · rw [List.filter_cons_of_neg (by simp only [decide_eq_true_eq]; omega), hrest,
        show (offset - n).toNat = (offset - (n + 1)).toNat + 1 by omega]
      rfl

/-- What is asked for: of the events buffered those from the offset on, or the last ones if the
    offset is negative, up to the limit. -/
def requested (bufferSize : ℕ) (events : List Event) (offset limit : ℤ) : List Event :=
  let buffered := events.drop (events.length - bufferSize)
  limited limit
    (if offset < 0 then buffered.drop (buffered.length - (-offset).toNat)
      else buffered.filter fun ev => decide (offset ≤ ev.seq))

/-- The events of an answer, by their position: those buffered from the effective offset on. -/
theorem matching_after (sprintf : String → String) (bufferSize : ℕ) (ms : List Message)
    (req : LogsRequest) :
    let e := (newEventManager bufferSize).after sprintf ms
    let events := numbered 0 ms
    let first := events.length - bufferSize
    let total := countNonNullRingValues e.buffer
    total = min events.length bufferSize ∧
      getMatchingEvents e { req with offset := effectiveOffset req.offset total }
        = limited req.limit ((events.drop first).drop
            (effectiveOffset req.offset total - (first : ℕ)).toNat) := by
  intro e events first total
  have hnew : (newEventManager bufferSize).buffer.cells.length = bufferSize := by
    simp [newEventManager, RingBuffer.new]
  obtain ⟨hsize, hbuffer⟩ := @after_buffer sprintf ms _ hnew
  have hvalues : e.buffer.values = events.drop first := by
    rw [hbuffer]
    exact RingBuffer.values_pushAll bufferSize events
  have hcells : e.buffer.cells.length = e.bufferSize := by
    rw [hbuffer, hsize, RingBuffer.length_pushAll, hnew]
    rfl
  refine ⟨?_, ?_⟩
  · simp only [total, countNonNullRingValues, hvalues, List.length_drop, first]
    omega
  · rw [getMatchingEvents_eq hcells, hvalues]
    refine congrArg _ (filter_numbered _ first _ fun i ev hev => ?_)
    rw [List.getElem?_drop] at hev
    have := getElem?_numbered ms 0 _ ev hev
    push_cast at this
    omega

/-- Where an answer begins decides what it is. -/
theorem limited_drop_inj {l : List Event} {n limit : ℤ} {a b : ℕ}
    (hseq : ∀ i ev, l[i]? = some ev → ev.seq = n + (i : ℕ)) (ha : a < l.length) (hb : b < l.length)
    (h : (limited limit (l.drop a)).map (eventToLogEntry sprintf)
      = (limited limit (l.drop b)).map (eventToLogEntry sprintf)) : a = b := by
  have hhead : ∀ i, i < l.length →
      ((limited limit (l.drop i)).map (eventToLogEntry sprintf))[0]?.map (·.id) = some (n + i) := by
    intro i hi
    have hget : l[i]? = some l[i] := List.getElem?_eq_getElem hi
    have hlimited : (limited limit (l.drop i))[0]? = some l[i] := by
      simp only [limited]
      split
      · rw [List.getElem?_drop, Nat.add_zero, hget]
      · rw [List.getElem?_take_of_lt (by omega), List.getElem?_drop, Nat.add_zero, hget]
    rw [List.getElem?_map, hlimited]
    exact congrArg some (hseq i _ hget)
  have hab : some (n + (a : ℤ)) = some (n + (b : ℤ)) := by rw [← hhead a ha, ← hhead b hb, h]
  have := Option.some.inj hab
  omega

/-- The entries sent to whoever asked are those of the matching events, and no others are sent. -/
theorem mem_sent_iff (e : EventManager) (sender : ℕ) (req : LogsRequest) (entries : List Entry) :
    Sent.batch sender entries ∈ (e.receive sprintf (.logsRequest sender req)).2 ↔
      entries = (getMatchingEvents e { req with
        offset := effectiveOffset req.offset (countNonNullRingValues e.buffer) }).map
          (eventToLogEntry sprintf) := by
  simp only [EventManager.receive]
  split <;> simp

/-- Events numbered in a row are in order, and so is what is left of them. -/
theorem pairwise_limited {l : List Event} {n : ℤ}
    (hseq : ∀ i ev, l[i]? = some ev → ev.seq = n + (i : ℕ)) (limit : ℤ) (i : ℕ) :
    ((limited limit (l.drop i)).map (eventToLogEntry sprintf)).Pairwise fun a b => a.id < b.id := by
  have hall : l.Pairwise fun a b => a.seq < b.seq := by
    rw [List.pairwise_iff_getElem]
    intro i j hi hj hij
    rw [hseq i _ (List.getElem?_eq_getElem hi), hseq j _ (List.getElem?_eq_getElem hj)]
    omega
  have hsub : (limited limit (l.drop i)).Sublist l := by
    simp only [limited]
    split
    · exact List.drop_sublist _ _
    · exact (List.take_sublist _ _).trans (List.drop_sublist _ _)
  exact List.pairwise_map.mpr (hall.sublist hsub)

/-- CORRECT: after any messages, the entries sent in answer to a request are in the order of their
    numbers; and they are those of the events asked for exactly when the offset is not negative, or
    goes back as far as the buffer, or the buffer has not wrapped around. -/
theorem logs_answered_iff (sprintf : String → String) (bufferSize : ℕ) (ms : List Message)
    (sender : ℕ) (req : LogsRequest) :
    let sent := (((newEventManager bufferSize).after sprintf ms).receive sprintf
      (.logsRequest sender req)).2
    (∀ entries, Sent.batch sender entries ∈ sent → entries.Pairwise fun a b => a.id < b.id) ∧
      (Sent.batch sender ((requested bufferSize (numbered 0 ms) req.offset req.limit).map
          (eventToLogEntry sprintf)) ∈ sent ↔
        0 ≤ req.offset ∨ req.offset ≤ -bufferSize ∨ (numbered 0 ms).length ≤ bufferSize) := by
  intro sent
  obtain ⟨htotal, hmatching⟩ := matching_after sprintf bufferSize ms req
  have hseq : ∀ i ev, ((numbered 0 ms).drop ((numbered 0 ms).length - bufferSize))[i]? = some ev →
      ev.seq = (((numbered 0 ms).length - bufferSize : ℕ) : ℤ) + (i : ℕ) := by
    intro i ev hev
    rw [List.getElem?_drop] at hev
    have := getElem?_numbered ms 0 _ ev hev
    push_cast at this
    omega
  refine ⟨fun entries hentries => ?_, ?_⟩
  · rw [(mem_sent_iff _ _ _ _).mp hentries, hmatching]
    exact pairwise_limited hseq _ _
  · rw [mem_sent_iff, hmatching, requested]
    rw [htotal] at *
    have hlength : ((numbered 0 ms).drop ((numbered 0 ms).length - bufferSize)).length
        = min (numbered 0 ms).length bufferSize := by
      rw [List.length_drop]
      omega
    by_cases hneg : req.offset < 0
    · rw [if_pos hneg, effectiveOffset_neg hneg]
      by_cases hsafe : req.offset ≤ -bufferSize ∨ (numbered 0 ms).length ≤ bufferSize
      · refine iff_of_true ?_ (.inr hsafe)
        congr 3
        rw [hlength]
        omega
      · refine iff_of_false (fun h => ?_) (by omega)
        have hab := limited_drop_inj hseq (by rw [hlength]; omega) (by rw [hlength]; omega) h
        rw [hlength] at hab
        omega
    · refine iff_of_true ?_ (.inl (by omega))
      rw [if_neg hneg, filter_numbered _ _ _ hseq, effectiveOffset]
      congr 3
      split_ifs <;> omega

/-- A log event. -/
def logged (text : String) : Message :=
  .event ⟨"", "", "", 0, 0, false, false, false, none, some text⟩ "parent" "id" 0

/-- One event more than are kept. The last one is asked for, and the last two are sent. -/
theorem negative_offset_wrapped :
    let ms := List.replicate (defaultEventBufferSize + 1) (logged "a")
    (((newEventManager defaultEventBufferSize).after id ms).receive id
        (.logsRequest 0 ⟨-1, 0, false⟩)).2
        = [.respond 0, .batch 0 [⟨199, "a", 0⟩, ⟨200, "a", 0⟩], .closeStream 0] ∧
      (requested defaultEventBufferSize (numbered 0 ms) (-1) 0).map (eventToLogEntry id)
        = [⟨200, "a", 0⟩] := by
  decide +kernel

end Determined.Command
