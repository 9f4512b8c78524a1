import Determined.Agent.ContainerActor
import Determined.Container.Reports

/-! What the agent's container actor reports over a container's life.

    The messages that are still in the inbox are limited by what the container has been through
    (`Open`): its image arrives while it is pulled, its start while it starts, and so on, each once.
    But stopping is a message too, so what arrived in the meantime is handled after the container was
    declared terminated; and the spec is used after it was evicted. The main result,
    `end_reported_iff`, lists what must not be handled when, and says that nothing else goes
    wrong. -/

namespace Determined.Agent
open Determined.Container Determined.Schemes

/-- The parent hears of the states and of the logs. -/
def parent : Listener Told where
  hears
    | .stateChanged .. | .containerLog .. | .trialLog _ => true
    | _ => false
  reports
    | .stateChanged container _ _ => some container
    | _ => none
  hears_of_reports m s h := by cases m <;> first | rfl | cases h

/-- The actor did not panic, what it reported is in order, and if it is gone it reported the end. -/
structure Lawful (a : Live ContainerActor Message Told) : Prop where
  no_panic : a.panicked = false
  in_order : InOrder parent a.told
  reported_end : a.closed = true → .terminated ∈ parent.reported a.told

/-- The message ends the container: it exited, it failed, or it is stopped before it starts. -/
def Ends (c : ContainerActor) : Message → Prop
  | .containerTerminated _ | .childFailed _ | .dockerErr _ => True
  | .signalContainer signal =>
    signal.stops = true ∧ (c.container = .assigned ∨ c.container = .pulling)
  | _ => False

/-- A message the actor can take. -/
def Orderly (c : ContainerActor) : Message → Prop
  | .preStart => ∀ spec, c.spec = some spec → (getBaseTrialLog spec.env).isSome
  | .imagePulled | .containerReady => c.container ≠ .terminated
  | .containerStarted _ checker =>
    ∀ spec, c.spec = some spec → spec.checks.isEmpty = false → checker = none
  | .containerLog _ => c.container ≠ .terminated ∧ c.spec.isSome
  | _ => True

/-! ### What can be in the inbox -/

/-- The first letter is never in the inbox before the second. -/
def Clash : Letter Message → Letter Message → Bool
  | .msg .preStart, .msg .preStart => true
  | .msg .imagePulled, .msg .imagePulled => true
  | .msg (.containerStarted ..), .msg (.containerStarted ..) => true
  | .msg (.containerTerminated _), .msg (.containerStarted ..) => true
  | .msg .containerReady, .msg .containerReady => true
  | _, _ => false

/-- What the actor's letters and its senders may still bring, as long as it takes letters. -/
structure Open (spec : Spec) (s : System) : Prop where
  order : s.actor.inbox.Pairwise fun a b => Clash a b = false
  spec_eq : s.actor.state.spec = some spec ∨
    s.actor.state.spec = none ∧ s.actor.state.containerInfo.isSome
  stop_mem : .stop ∈ s.actor.inbox → s.actor.state.container = .terminated
  run_log : spec.useFluentLogging = true →
    ∀ text, .msg (.containerLog (.run text)) ∉ s.actor.inbox
  assigned : s.actor.state.container = .assigned →
    ∃ rest, s.actor.inbox = .msg .preStart :: rest
  preStart_mem : .msg .preStart ∈ s.actor.inbox → s.actor.state.container = .assigned
  pull_told : s.actor.told.any Told.isPullImage = true → s.actor.state.container ≠ .assigned
  run_told : s.actor.told.any Told.isRunContainer = true →
    s.actor.state.container ≠ .assigned ∧ s.actor.state.container ≠ .pulling
  pulled_mem : .msg .imagePulled ∈ s.actor.inbox → s.pulled = true ∧
    (s.actor.state.container = .pulling ∨ s.actor.state.container = .terminated) ∧
    s.actor.state.containerInfo = none
  pulled_of_starting : s.actor.state.container = .starting ∨
    s.actor.state.container = .running → s.pulled = true
  pulled_of_info : s.actor.state.containerInfo.isSome → s.pulled = true
  creating : s.creating = true →
    s.actor.state.container = .starting ∧ s.actor.state.containerInfo = none
  started_mem : ∀ info checker, .msg (.containerStarted info checker) ∈ s.actor.inbox →
    s.started = true ∧ s.actor.state.container = .starting ∧ s.actor.state.containerInfo = none
  exited_mem : ∀ code, .msg (.containerTerminated code) ∈ s.actor.inbox → s.exited = true
  started_of_info : s.actor.state.containerInfo.isSome → s.started = true
  ready_mem : .msg .containerReady ∈ s.actor.inbox →
    (s.actor.state.container = .starting ∨ s.actor.state.container = .terminated) ∧
    s.actor.state.containerInfo.isSome ∧ s.checking = false
  checker_told : s.actor.told.any Told.isNewChecker = true → s.actor.state.containerInfo.isSome
  checking : s.checking = true →
    s.actor.state.container = .starting ∨ s.actor.state.container = .terminated
  info_of_running : s.actor.state.container = .running → s.actor.state.containerInfo.isSome
  info_state : s.actor.state.containerInfo.isSome →
    s.actor.state.container ≠ .assigned ∧ s.actor.state.container ≠ .pulling

/-- The system is between two steps. -/
structure Steady (spec : Spec) (s : System) : Prop where
  no_panic : s.actor.panicked = false
  progress : Progress parent s.actor.state.container s.actor.told
  closed : s.actor.closed = true →
    s.actor.state.container = .terminated ∧ s.actor.inbox = []
  opened : s.actor.closed = false → Open spec s

theorem steady_start (spec : Spec) : Steady spec (System.start spec) := by
  refine ⟨rfl, progress_nil, by simp [System.start], fun _ => ?_⟩
  constructor <;>
    simp [System.start, newContainerActor, System.creating, System.checking]

/-! ### Sending a letter -/

variable {spec : Spec} {s t : System} {m : Message} {more : List (Letter Message)}

/-- A sender adds a letter the inbox can hold, and may note that it has sent its last. -/
structure Sent (spec : Spec) (s t : System) (m : Message) : Prop where
  actor_eq : t.actor = s.actor.deliver (.msg m)
  pulled : s.pulled = true → t.pulled = true
  started : s.started = true → t.started = true
  exited : s.exited = true → t.exited = true
  ready : s.ready = true → t.ready = true
  no_clash : ∀ a ∈ s.actor.inbox, Clash a (.msg m) = false
  not_preStart : m ≠ .preStart
  run_log : ∀ text, m = .containerLog (.run text) → spec.useFluentLogging = false
  imagePulled : m = .imagePulled → t.pulled = true ∧
    (s.actor.state.container = .pulling ∨ s.actor.state.container = .terminated) ∧
    s.actor.state.containerInfo = none
  containerStarted : ∀ info checker, m = .containerStarted info checker → t.started = true ∧
    s.actor.state.container = .starting ∧ s.actor.state.containerInfo = none
  containerTerminated : ∀ code, m = .containerTerminated code → t.exited = true
  containerReady : m = .containerReady →
    (s.actor.state.container = .starting ∨ s.actor.state.container = .terminated) ∧
    s.actor.state.containerInfo.isSome ∧ t.ready = true

theorem Open.sent (h : Open spec s) (hopen : s.actor.closed = false) (hs : Sent spec s t m) :
    Open spec t := by
  have hin : t.actor.inbox = s.actor.inbox ++ [.msg m] := by
    simp [hs.actor_eq, Live.deliver, hopen]
  have hst : t.actor.state = s.actor.state := by simp [hs.actor_eq]
  have htold : t.actor.told = s.actor.told := by simp [hs.actor_eq]
  have hmem : ∀ x, x ∈ t.actor.inbox ↔ x ∈ s.actor.inbox ∨ x = .msg m := by simp [hin]
  have hcreating : t.creating = true → s.creating = true := by
    have := hs.started
    have := hs.exited
    simp only [System.creating, htold]
    grind
  have hchecking : t.checking = true → s.checking = true := by
    have := hs.ready
    simp only [System.checking, htold]
    grind
  constructor <;> try simp only [hst, htold, hmem]
  · rw [hin, List.pairwise_append]
    exact ⟨h.order, List.pairwise_singleton .., fun a ha b hb => List.mem_singleton.mp hb ▸ hs.no_clash a ha⟩
  · exact h.spec_eq
  · rintro (hm | hm)
    · exact h.stop_mem hm
    · cases hm
  · rintro hf text (hm | hm)
    · exact h.run_log hf text hm
    · exact absurd (hs.run_log text (by cases hm; rfl)) (by simp [hf])
  · intro hc
    obtain ⟨rest, hrest⟩ := h.assigned hc
    exact ⟨rest ++ [.msg m], by simp [hin, hrest]⟩
  · rintro (hm | hm)
    · exact h.preStart_mem hm
    · cases hm
      exact absurd rfl hs.not_preStart
  · exact h.pull_told
  · exact h.run_told
  · rintro (hm | hm)
    · obtain ⟨hp, hc⟩ := h.pulled_mem hm
      exact ⟨hs.pulled hp, hc⟩
    · cases hm
      exact hs.imagePulled rfl
  · exact fun hc => hs.pulled (h.pulled_of_starting hc)
  · exact fun hc => hs.pulled (h.pulled_of_info hc)
  · exact fun hc => h.creating (hcreating hc)
  · rintro info checker (hm | hm)
    · obtain ⟨hp, hc⟩ := h.started_mem info checker hm
      exact ⟨hs.started hp, hc⟩
    · cases hm
      exact hs.containerStarted info checker rfl
  · rintro code (hm | hm)
    · exact hs.exited (h.exited_mem code hm)
    · cases hm
      exact hs.containerTerminated code rfl
  · exact fun hc => hs.started (h.started_of_info hc)
  · rintro (hm | hm)
    · obtain ⟨hc, hi, hch⟩ := h.ready_mem hm
      exact ⟨hc, hi, Bool.eq_false_iff.mpr fun hch' => by simp [hchecking hch'] at hch⟩
    · cases hm
      obtain ⟨hc, hi, hr⟩ := hs.containerReady rfl
      exact ⟨hc, hi, by simp [System.checking, hr]⟩
  · exact h.checker_told
  · exact fun hc => h.checking (hchecking hc)
  · exact h.info_of_running
  · exact h.info_state

/-- A letter that no field of `Open` speaks of. -/
theorem sent_plain (hactor : t.actor = s.actor.deliver (.msg m))
    (hflags : t.started = s.started ∧ t.ready = s.ready ∧ (s.pulled = true → t.pulled = true) ∧
      (s.exited = true → t.exited = true))
    (hm : ∀ a, Clash a (.msg m) = false) (hpre : m ≠ .preStart) (hpull : m ≠ .imagePulled)
    (hstart : ∀ info checker, m ≠ .containerStarted info checker)
    (hexit : ∀ code, m ≠ .containerTerminated code) (hready : m ≠ .containerReady)
    (hlog : ∀ text, m = .containerLog (.run text) → spec.useFluentLogging = false) :
    Sent spec s t m :=
  ⟨hactor, hflags.2.2.1, hflags.1 ▸ id, hflags.2.2.2, hflags.2.1 ▸ id, fun a _ => hm a, hpre, hlog,
    fun h => absurd h hpull, fun info checker h => absurd h (hstart info checker),
    fun code h => absurd h (hexit code), fun h => absurd h hready⟩

/-- Errors of the docker actor and its children, and signals. -/
theorem sent_report (hactor : t.actor = s.actor.deliver (.msg m))
    (hflags : t.started = s.started ∧ t.ready = s.ready ∧ (s.pulled = true → t.pulled = true) ∧
      (s.exited = true → t.exited = true))
    (hm : (∃ err, m = .dockerErr err) ∨ (∃ err, m = .childFailed err) ∨
      ∃ signal, m = .signalContainer signal) : Sent spec s t m := by
  obtain ⟨x, rfl⟩ | ⟨x, rfl⟩ | ⟨x, rfl⟩ := hm <;>
    exact sent_plain hactor hflags (fun a => by rcases a with a | _ <;> [cases a; skip] <;> rfl)
      (by simp) (by simp) (by simp) (by simp) (by simp) (by simp)

theorem sent_dockerLog {log : ContainerLog} (hg : s.logs spec.useFluentLogging log = true) :
    Sent spec s (s.send (.containerLog log)) (.containerLog log) := by
  refine sent_plain rfl ⟨rfl, rfl, id, id⟩
    (fun a => by rcases a with a | _ <;> [cases a; skip] <;> rfl) (by simp) (by simp) (by simp)
    (by simp) (by simp) fun text heq => ?_
  cases heq
  rw [System.logs, Bool.and_eq_true, Bool.not_eq_true'] at hg
  exact hg.2

theorem Open.sent_imagePulled (h : Open spec s) (hg : s.pulling = true) :
    Sent spec s { s.send .imagePulled with pulled := true } .imagePulled := by
  obtain ⟨htold, hnot⟩ : s.actor.told.any Told.isPullImage = true ∧ s.pulled = false := by
    simpa [System.pulling] using hg
  have hstate : s.actor.state.container = .pulling ∨ s.actor.state.container = .terminated := by
    have h1 := h.pull_told htold
    have h2 : ¬ (s.actor.state.container = .starting ∨ s.actor.state.container = .running) :=
      fun hc => by simp [h.pulled_of_starting hc] at hnot
    revert h1 h2
    cases s.actor.state.container <;> simp
  have hnone : s.actor.state.containerInfo = none :=
    Option.not_isSome_iff_eq_none.mp fun hi => by simp [h.pulled_of_info hi] at hnot
  refine ⟨rfl, fun _ => rfl, id, id, id, fun a ha => ?_, by simp, by simp,
    fun _ => ⟨rfl, hstate, hnone⟩, by simp, by simp, by simp⟩
  rcases a with a | _
  · cases a <;> first | rfl | exact absurd (h.pulled_mem ha).1 (by simp [hnot])
  · rfl

theorem Open.sent_containerStarted (h : Open spec s) (hg : s.creating = true) (info : String)
    (checker : Option String) :
    Sent spec s { s.send (.containerStarted info checker) with started := true }
      (.containerStarted info checker) := by
  obtain ⟨⟨-, hstarted⟩, hexited⟩ : (s.actor.told.any Told.isRunContainer = true ∧
      s.started = false) ∧ s.exited = false := by simpa [System.creating] using hg
  refine ⟨rfl, id, fun _ => rfl, id, id, fun a ha => ?_, by simp, by simp, by simp,
    fun _ _ _ => ⟨rfl, h.creating hg⟩, by simp, by simp⟩
  rcases a with a | _
  · cases a <;> first
      | rfl
      | exact absurd (h.started_mem _ _ ha).1 (by simp [hstarted])
      | exact absurd (h.exited_mem _ ha) (by simp [hexited])
  · rfl

theorem sent_containerTerminated (code : ℤ) :
    Sent spec s { s.send (.containerTerminated code) with exited := true }
      (.containerTerminated code) := by
  refine ⟨rfl, id, id, fun _ => rfl, id, fun a _ => ?_, by simp, by simp, by simp, by simp,
    fun _ _ => rfl, by simp⟩
  rcases a with a | _ <;> [cases a; skip] <;> rfl

theorem Open.sent_containerReady (h : Open spec s) (hg : s.checking = true) :
    Sent spec s { s.send .containerReady with ready := true } .containerReady := by
  have htold : s.actor.told.any Told.isNewChecker = true := (Bool.and_eq_true .. ▸ hg).1
  refine ⟨rfl, id, id, id, fun _ => rfl, fun a ha => ?_, by simp, by simp, by simp, by simp, by simp,
    fun _ => ⟨h.checking hg, h.checker_told htold, rfl⟩⟩
  rcases a with a | _
  · cases a <;> first | rfl | exact absurd (h.ready_mem ha).2.2 (by simp [hg])
  · rfl

/-! ### Taking a letter -/

/-- The letter at the head is gone, and what follows it does not clash with it. -/
structure Took (s t : System) (m : Message) (more : List (Letter Message)) : Prop where
  inbox_eq : ∃ rest, s.actor.inbox = .msg m :: rest ∧ t.actor.inbox = rest ++ more
  pulled : t.pulled = s.pulled
  started : t.started = s.started
  exited : t.exited = s.exited
  ready : t.ready = s.ready

theorem Took.mem (h : Took s t m more) {x : Letter Message} (hx : x ∈ t.actor.inbox) :
    x ∈ s.actor.inbox ∨ x ∈ more := by
  obtain ⟨rest, hs, ht⟩ := h.inbox_eq
  rw [ht] at hx
  rw [hs]
  exact (List.mem_append.mp hx).imp_left (List.mem_cons_of_mem _)

theorem Took.mem_head (h : Took s t m more) : .msg m ∈ s.actor.inbox := by
  obtain ⟨rest, hs, -⟩ := h.inbox_eq
  rw [hs]
  exact List.mem_cons_self ..

theorem Took.no_clash (h : Took s t m more) (ho : Open spec s) {x : Letter Message}
    (hx : x ∈ t.actor.inbox) : Clash (.msg m) x = false ∨ x ∈ more := by
  obtain ⟨rest, hs, ht⟩ := h.inbox_eq
  have hord := ho.order
  rw [hs] at hord
  rw [ht] at hx
  exact (List.mem_append.mp hx).imp_left ((List.pairwise_cons.mp hord).1 x)

theorem Took.order (h : Took s t m more) (ho : Open spec s)
    (hmore : more.Pairwise fun a b => Clash a b = false)
    (hclash : ∀ a ∈ s.actor.inbox, ∀ b ∈ more, Clash a b = false) :
    t.actor.inbox.Pairwise fun a b => Clash a b = false := by
  obtain ⟨rest, hs, ht⟩ := h.inbox_eq
  have hord := ho.order
  rw [hs] at hord
  rw [ht, List.pairwise_append]
  exact ⟨(List.pairwise_cons.mp hord).2, hmore,
    fun a ha => hclash a (hs ▸ List.mem_cons_of_mem _ ha)⟩

/-- Only the first letter can be taken before the actor has started. -/
theorem Took.assigned (h : Took s t m more) (ho : Open spec s)
    (hc : s.actor.state.container = .assigned) : m = .preStart := by
  obtain ⟨rest, hs, -⟩ := h.inbox_eq
  obtain ⟨rest', hs'⟩ := ho.assigned hc
  rw [hs] at hs'
  cases hs'
  rfl

/-- Nothing a field of `Open` speaks of has changed. -/
theorem open_unchanged (h : Open spec s) (ht : Took s t m more)
    (hm : m ≠ .preStart) (hst : t.actor.state = s.actor.state)
    (htold : ∃ l, t.actor.told = s.actor.told ++ l ∧ ∀ x ∈ l, x.isPullImage = false ∧
      x.isRunContainer = false ∧ x.isNewChecker = false)
    (hmore : ∀ x ∈ more, ∃ signal, x = .msg (.signalContainer signal)) : Open spec t := by
  have hold : ∀ {x}, x ∈ t.actor.inbox →
      (∀ signal, x ≠ .msg (.signalContainer signal)) → x ∈ s.actor.inbox := by
    intro x hx hne
    refine (ht.mem hx).resolve_right fun hin => ?_
    obtain ⟨signal, rfl⟩ := hmore x hin
    exact hne signal rfl
  have hplain : ∀ a, ∀ b ∈ more, Clash a b = false := by
    intro a b hb
    obtain ⟨signal, rfl⟩ := hmore b hb
    rcases a with a | _ <;> [cases a; skip] <;> rfl
  obtain ⟨l, hl, hnone⟩ := htold
  have hany : ∀ p : Told → Bool, (∀ x ∈ l, p x = false) →
      t.actor.told.any p = s.actor.told.any p := by
    intro p hp
    have hnil : l.any p = false := List.any_eq_false.mpr fun x hx => by simp [hp x hx]
    rw [hl, List.any_append, hnil, Bool.or_false]
  have hpull := hany _ fun x hx => (hnone x hx).1
  have hrun := hany _ fun x hx => (hnone x hx).2.1
  have hck := hany _ fun x hx => (hnone x hx).2.2
  have hcreating : t.creating = s.creating := by
    rw [System.creating, System.creating, hrun, ht.started, ht.exited]
  have hchecking : t.checking = s.checking := by
    rw [System.checking, System.checking, hck, ht.ready]
  have hnotassigned : s.actor.state.container ≠ .assigned := fun hc => hm (ht.assigned h hc)
  constructor <;> (try simp only [hst, hpull, hrun, hck, hcreating, hchecking, ht.pulled, ht.started,
    ht.exited])
  · exact ht.order h (List.pairwise_of_forall_mem_list fun a _ b hb => hplain a b hb)
      fun a _ b hb => hplain a b hb
  · exact h.spec_eq
  · exact fun hx => h.stop_mem (hold hx (by simp))
  · exact fun hf text hx => h.run_log hf text (hold hx (by simp))
  · exact fun hc => absurd hc hnotassigned
  · exact fun hx => h.preStart_mem (hold hx (by simp))
  · exact h.pull_told
  · exact h.run_told
  · exact fun hx => h.pulled_mem (hold hx (by simp))
  · exact h.pulled_of_starting
  · exact h.pulled_of_info
  · exact h.creating
  · exact fun info checker hx => h.started_mem info checker (hold hx (by simp))
  · exact fun code hx => h.exited_mem code (hold hx (by simp))
  · exact h.started_of_info
  · exact fun hx => h.ready_mem (hold hx (by simp))
  · exact h.checker_told
  · exact h.checking
  · exact h.info_of_running
  · exact h.info_state

/-- A letter that is still in the inbox was there before, unless the actor put it there. -/
theorem Took.mem_old (h : Took s t m []) {x : Letter Message} (hx : x ∈ t.actor.inbox) :
    x ∈ s.actor.inbox := (h.mem hx).resolve_right (by simp)

theorem Took.not_mem (h : Took s t m more) (ho : Open spec s) {x : Letter Message}
    (hx : Clash (.msg m) x = true) (hmore : x ∉ more) : x ∉ t.actor.inbox := fun hin =>
  (h.no_clash ho hin).elim (by simp [hx]) hmore

section Changes

variable (h : Open spec s) (hsp : t.actor.state.spec = s.actor.state.spec)
  (hinfo : t.actor.state.containerInfo = s.actor.state.containerInfo)

include h hsp hinfo

/-- The actor starts, and has the image pulled. -/
theorem open_pulling (ht : Took s t .preStart []) (hc : t.actor.state.container = .pulling)
    (hrun : t.actor.told.any Told.isRunContainer = s.actor.told.any Told.isRunContainer)
    (hck : t.actor.told.any Told.isNewChecker = s.actor.told.any Told.isNewChecker) :
    Open spec t := by
  have hold := h.preStart_mem ht.mem_head
  have hnone : s.actor.state.containerInfo = none :=
    Option.not_isSome_iff_eq_none.mp fun hi => (h.info_state hi).1 hold
  have hnorun : s.actor.told.any Told.isRunContainer = false :=
    Bool.eq_false_iff.mpr fun hr => (h.run_told hr).1 hold
  have hnock : s.actor.told.any Told.isNewChecker = false :=
    Bool.eq_false_iff.mpr fun hr => by simpa [hnone] using h.checker_told hr
  refine ⟨ht.order h (by simp) (by simp), ?_, ?_, ?_, ?_, ?_, ?_, ?_, ?_, ?_, ?_, ?_, ?_, ?_, ?_, ?_,
    ?_, ?_, ?_, ?_⟩ <;> (try simp only [System.creating, System.checking, hc, hsp, hinfo, hnone, hrun,
      hnorun, hck, hnock, ht.pulled, ht.started, ht.exited])
  · simpa [hnone] using h.spec_eq
  · exact fun hx => by simpa [hold] using h.stop_mem (ht.mem_old hx)
  · exact fun hf text hx => h.run_log hf text (ht.mem_old hx)
  · simp
  · exact fun hx => absurd hx (ht.not_mem h rfl (by simp))
  · simp
  · simp
  · exact fun hx => by simpa [hold] using (h.pulled_mem (ht.mem_old hx)).2.1
  · simp
  · simp
  · simp
  · exact fun info checker hx => by simpa [hold] using (h.started_mem _ _ (ht.mem_old hx)).2.1
  · exact fun code hx => h.exited_mem code (ht.mem_old hx)
  · simp
  · exact fun hx => by simpa [hold] using (h.ready_mem (ht.mem_old hx)).1
  · simp
  · simp
  · simp
  · simp

/-- The image is there, and the container is run. -/
theorem open_starting (ht : Took s t .imagePulled []) (hc : t.actor.state.container = .starting)
    (hlive : s.actor.state.container ≠ .terminated)
    (hck : t.actor.told.any Told.isNewChecker = s.actor.told.any Told.isNewChecker) :
    Open spec t := by
  obtain ⟨hpulled, hcase, hnone⟩ := h.pulled_mem ht.mem_head
  have hold := hcase.resolve_right hlive
  have hnock : s.actor.told.any Told.isNewChecker = false :=
    Bool.eq_false_iff.mpr fun hr => by simpa [hnone] using h.checker_told hr
  refine ⟨ht.order h (by simp) (by simp), ?_, ?_, ?_, ?_, ?_, ?_, ?_, ?_, ?_, ?_, ?_, ?_, ?_, ?_, ?_,
    ?_, ?_, ?_, ?_⟩ <;> (try simp only [System.checking, hc, hsp, hinfo, hnone, hck, hnock, ht.pulled,
      ht.started, ht.exited, hpulled])
  · simpa [hnone] using h.spec_eq
  · exact fun hx => by simpa [hold] using h.stop_mem (ht.mem_old hx)
  · exact fun hf text hx => h.run_log hf text (ht.mem_old hx)
  · simp
  · exact fun hx => by simpa [hold] using h.preStart_mem (ht.mem_old hx)
  · simp
  · simp
  · exact fun hx => absurd hx (ht.not_mem h rfl (by simp))
  · simp
  · simp
  · simp
  · exact fun info checker hx => by simpa [hold] using (h.started_mem _ _ (ht.mem_old hx)).2.1
  · exact fun code hx => h.exited_mem code (ht.mem_old hx)
  · simp
  · exact fun hx => by simpa [hnone] using (h.ready_mem (ht.mem_old hx)).2.1
  · simp
  · simp
  · simp
  · simp

/-- The container runs. -/
theorem open_running (ht : Took s t .containerReady []) (hc : t.actor.state.container = .running)
    (hlive : s.actor.state.container ≠ .terminated)
    (hck : t.actor.told.any Told.isNewChecker = s.actor.told.any Told.isNewChecker) :
    Open spec t := by
  obtain ⟨hcase, hsome, hnocheck⟩ := h.ready_mem ht.mem_head
  have hold := hcase.resolve_right hlive
  have hpulled := h.pulled_of_info hsome
  have hstarted := h.started_of_info hsome
  have hchecking : t.checking = false := by
    rw [← hnocheck, System.checking, System.checking, hck, ht.ready]
  refine ⟨ht.order h (by simp) (by simp), ?_, ?_, ?_, ?_, ?_, ?_, ?_, ?_, ?_, ?_, ?_, ?_, ?_, ?_, ?_,
    ?_, ?_, ?_, ?_⟩ <;> (try simp only [System.creating, hc, hsp, hinfo, hsome, hchecking, ht.pulled,
      ht.started, ht.exited, hpulled, hstarted])
  · simpa [hsome] using h.spec_eq
  · exact fun hx => by simpa [hold] using h.stop_mem (ht.mem_old hx)
  · exact fun hf text hx => h.run_log hf text (ht.mem_old hx)
  · simp
  · exact fun hx => by simpa [hold] using h.preStart_mem (ht.mem_old hx)
  · simp
  · simp
  · exact fun hx => by simpa [hold] using (h.pulled_mem (ht.mem_old hx)).2.1
  · simp
  · simp
  · simp
  · exact fun info checker hx => by
      simpa [Option.isSome_iff_ne_none.mp hsome] using (h.started_mem _ _ (ht.mem_old hx)).2.2
  · exact fun code hx => h.exited_mem code (ht.mem_old hx)
  · simp
  · exact fun hx => absurd hx (ht.not_mem h rfl (by simp))
  · simp
  · simp
  · simp
  · simp

/-- The container has terminated; the actor has yet to stop. -/
theorem open_terminated (ht : Took s t m [.stop]) (hm : m ≠ .preStart)
    (hc : t.actor.state.container = .terminated)
    (hck : t.actor.told.any Told.isNewChecker = s.actor.told.any Told.isNewChecker)
    (hno : ∀ info checker, .msg (.containerStarted info checker) ∉ t.actor.inbox)
    (hcreating : t.creating = false) : Open spec t := by
  have hold : ∀ {x}, .msg x ∈ t.actor.inbox → .msg x ∈ s.actor.inbox := fun hx =>
    (ht.mem hx).resolve_right (by simp)
  have hnotassigned : s.actor.state.container ≠ .assigned := fun ha => hm (ht.assigned h ha)
  have hchecking : t.checking = s.checking := by
    rw [System.checking, System.checking, hck, ht.ready]
  refine ⟨ht.order h (by simp) (fun a _ b hb => ?_), ?_, ?_, ?_, ?_, ?_, ?_, ?_, ?_, ?_, ?_, ?_, ?_,
    ?_, ?_, ?_, ?_, ?_, ?_, ?_⟩ <;> (try simp only [hc, hsp, hinfo, hcreating, hck, hchecking,
      ht.pulled, ht.started, ht.exited])
  · rw [List.mem_singleton.mp hb]
    rcases a with a | _ <;> [cases a; skip] <;> rfl
  · exact h.spec_eq
  · simp
  · exact fun hf text hx => h.run_log hf text (hold hx)
  · simp
  · exact fun hx => absurd (h.preStart_mem (hold hx)) hnotassigned
  · simp
  · simp
  · exact fun hx => ⟨(h.pulled_mem (hold hx)).1, .inr trivial, (h.pulled_mem (hold hx)).2.2⟩
  · simp
  · exact h.pulled_of_info
  · simp
  · exact fun info checker hx => absurd hx (hno info checker)
  · exact fun code hx => h.exited_mem code (hold hx)
  · exact h.started_of_info
  · exact fun hx => ⟨.inr trivial, (h.ready_mem (hold hx)).2⟩
  · exact h.checker_told
  · simp
  · simp
  · simp

end Changes

/-- The container is there: the actor is ready, or the checks are set up and the spec is evicted. -/
theorem open_started (h : Open spec s) {info : String} {checker : Option String}
    (ht : Took s t (.containerStarted info checker) more)
    (hc : t.actor.state.container = s.actor.state.container)
    (hinfo : t.actor.state.containerInfo = some info)
    (hcase : more = [.msg .containerReady] ∧ t.actor.state.spec = s.actor.state.spec ∧
        t.actor.told = s.actor.told ∨
      more = [] ∧ t.actor.state.spec = none ∧ t.actor.told = s.actor.told ++ [.newChecker]) :
    Open spec t := by
  obtain ⟨hstarted, hold, hnone⟩ := h.started_mem _ _ ht.mem_head
  have hpulled := h.pulled_of_starting (.inl hold)
  have hnock : s.actor.told.any Told.isNewChecker = false :=
    Bool.eq_false_iff.mpr fun hr => by simpa [hnone] using h.checker_told hr
  have hmore : more = [.msg .containerReady] ∨ more = [] := hcase.imp And.left And.left
  have hin : ∀ {x}, x ∈ t.actor.inbox → x ≠ .msg .containerReady → x ∈ s.actor.inbox := by
    intro x hx hne
    refine (ht.mem hx).resolve_right fun hx => ?_
    rcases hmore with rfl | rfl
    · exact hne (List.mem_singleton.mp hx)
    · cases hx
  have hnoready : .msg .containerReady ∉ s.actor.inbox := fun hx => by
    simpa [hnone] using (h.ready_mem hx).2.1
  have hnostart : ∀ i c, .msg (.containerStarted i c) ∉ t.actor.inbox := fun i c =>
    ht.not_mem h rfl (by rcases hmore with rfl | rfl <;> simp)
  have hready : .msg .containerReady ∈ t.actor.inbox → t.checking = false := by
    intro hx
    obtain ⟨-, -, htold⟩ | ⟨rfl, -⟩ := hcase
    · simp [System.checking, htold, hnock]
    · exact absurd (ht.mem_old hx) hnoready
  have hspec : t.actor.state.spec = some spec ∨ t.actor.state.spec = none := by
    obtain ⟨-, hs, -⟩ | ⟨-, hs, -⟩ := hcase
    · rw [hs]
      exact h.spec_eq.imp_right And.left
    · exact .inr hs
  have hcreating : t.creating = false := by simp [System.creating, ht.started, hstarted]
  have hord : t.actor.inbox.Pairwise fun a b => Clash a b = false := by
    rcases hmore with rfl | rfl
    · refine ht.order h (by simp) fun a ha b hb => ?_
      rw [List.mem_singleton.mp hb]
      rcases a with a | _
      · cases a <;> first | rfl | exact absurd ha hnoready
      · rfl
    · exact ht.order h (by simp) (by simp)
  refine ⟨hord, ?_, ?_, ?_, ?_, ?_, ?_, ?_, ?_, ?_, ?_, ?_, ?_, ?_, ?_, ?_, ?_, ?_, ?_, ?_⟩ <;>
    (try simp only [hc, hold, hinfo, ht.pulled, ht.started, ht.exited, hpulled, hstarted, hcreating])
  · exact hspec.imp_right fun hs => ⟨hs, rfl⟩
  · exact fun hx => by simpa [hold] using h.stop_mem (hin hx (by simp))
  · exact fun hf text hx => h.run_log hf text (hin hx (by simp))
  · simp
  · exact fun hx => by simpa [hold] using h.preStart_mem (hin hx (by simp))
  · simp
  · simp
  · exact fun hx => by simpa [hold] using (h.pulled_mem (hin hx (by simp))).2.1
  · simp
  · simp
  · simp
  · exact fun i c hx => absurd hx (hnostart i c)
  · exact fun code hx => h.exited_mem code (hin hx (by simp))
  · simp
  · exact fun hx => ⟨.inl trivial, rfl, hready hx⟩
  · simp
  · simp
  · simp
  · simp


theorem Steady.sent (h : Steady spec s) (hactor : t.actor = s.actor.deliver (.msg m))
    (hs : Open spec s → Sent spec s t m) : Steady spec t := by
  refine ⟨by simp [hactor, h.no_panic], by simpa [hactor] using h.progress, fun hc => ?_,
    fun hc => ?_⟩
  · have hclosed : s.actor.closed = true := by simpa [hactor] using hc
    simp [hactor, Live.deliver, hclosed, h.closed hclosed]
  · have hopen : s.actor.closed = false := by simpa [hactor] using hc
    exact (h.opened hopen).sent hopen (hs (h.opened hopen))

/-- Whatever a sender sends, the system stays steady. -/
theorem Steady.send (h : Steady spec s) {e : Event} (he : e ≠ .process)
    (hstep : System.Step spec.useFluentLogging s e t) : Steady spec t := by
  unfold System.Step at hstep
  cases e with
  | process => exact absurd rfl he
  | dockerLog log =>
    obtain ⟨hg, rfl⟩ : _ ∧ s.send (.containerLog log) = t := by
      simpa [System.turn] using hstep
    exact h.sent rfl fun _ => sent_dockerLog hg
  | imagePulled =>
    obtain ⟨hg, rfl⟩ : _ ∧ { s.send .imagePulled with pulled := true } = t := by
      simpa [System.turn] using hstep
    exact h.sent rfl fun ho => ho.sent_imagePulled hg
  | pullErr err =>
    obtain ⟨hg, rfl⟩ : _ ∧ { s.send (.dockerErr err) with pulled := true } = t := by
      simpa [System.turn] using hstep
    exact h.sent rfl fun _ => sent_report rfl ⟨rfl, rfl, fun _ => rfl, id⟩ (.inl ⟨err, rfl⟩)
  | containerStarted info checker =>
    obtain ⟨hg, rfl⟩ : _ ∧ { s.send (.containerStarted info checker) with started := true } = t := by
      simpa [System.turn] using hstep
    exact h.sent rfl fun ho => ho.sent_containerStarted hg info checker
  | runErr err =>
    obtain ⟨hg, rfl⟩ : _ ∧ { s.send (.dockerErr err) with exited := true } = t := by
      simpa [System.turn] using hstep
    exact h.sent rfl fun _ => sent_report rfl ⟨rfl, rfl, id, fun _ => rfl⟩ (.inl ⟨err, rfl⟩)
  | containerTerminated code =>
    obtain ⟨hg, rfl⟩ : _ ∧ { s.send (.containerTerminated code) with exited := true } = t := by
      simpa [System.turn] using hstep
    exact h.sent rfl fun _ => sent_containerTerminated code
  | containerReady =>
    obtain ⟨hg, rfl⟩ : _ ∧ { s.send .containerReady with ready := true } = t := by
      simpa [System.turn] using hstep
    exact h.sent rfl fun ho => ho.sent_containerReady hg
  | signalErr err =>
    obtain ⟨hg, rfl⟩ : _ ∧ s.send (.dockerErr err) = t := by
      simpa [System.turn] using hstep
    exact h.sent rfl fun _ => sent_report rfl ⟨rfl, rfl, id, id⟩ (.inl ⟨err, rfl⟩)
  | signalContainer signal =>
    obtain rfl : s.send (.signalContainer signal) = t := by simpa [System.turn] using hstep
    exact h.sent rfl fun _ => sent_report rfl ⟨rfl, rfl, id, id⟩ (.inr (.inr ⟨signal, rfl⟩))
  | childFailed err =>
    obtain rfl : s.send (.childFailed err) = t := by simpa [System.turn] using hstep
    exact h.sent rfl fun _ => sent_report rfl ⟨rfl, rfl, id, id⟩ (.inr (.inl ⟨err, rfl⟩))

/-! ### Handling a message -/

/-- What the handler leaves behind, if the actor goes on. -/
def handled (s : System) (m : Message) (rest : List (Letter Message)) : System :=
  { s with actor := s.actor.react (s.actor.state.receive m) rest }

theorem took_handled {rest : List (Letter Message)} (hin : s.actor.inbox = .msg m :: rest) :
    Took s (handled s m rest) m (s.actor.state.receive m).toSelf :=
  ⟨⟨rest, hin, rfl⟩, rfl, rfl, rfl, rfl⟩

/-- The container is declared terminated, and the parent is told if it was not yet. -/
theorem containerStopped_eq (c : ContainerActor) (stopped : ContainerStopped)
    (toSelf : List (Letter Message)) (ending : Ending) :
    c.containerStopped stopped toSelf ending = if c.container = .terminated then
      ⟨c, [], toSelf, ending⟩ else ⟨{ c with container := .terminated },
        [.stateChanged .terminated none (some stopped)], toSelf, ending⟩ := by
  unfold ContainerActor.containerStopped
  split
  · rfl
  · rename_i hne
    simp [State.transition, valid_terminated hne]

theorem progress_containerStopped {c : ContainerActor} {told : List Told}
    (h : Progress parent c.container told) (stopped : ContainerStopped)
    (toSelf : List (Letter Message)) (ending : Ending) :
    (c.containerStopped stopped toSelf ending).state.container = .terminated ∧
      Progress parent .terminated (told ++ (c.containerStopped stopped toSelf ending).told) ∧
      (c.containerStopped stopped toSelf ending).ending = ending ∧
      (c.containerStopped stopped toSelf ending).toSelf = toSelf := by
  rw [containerStopped_eq]
  split
  · rename_i hterm
    refine ⟨hterm, ?_, rfl, rfl⟩
    rw [List.append_nil, ← hterm]
    exact h
  · rename_i hne
    exact ⟨rfl, h.change (valid_terminated hne) rfl, rfl, rfl⟩

/-- What is left of the obligations once the handler is done: it goes on and the inbox can be read
    on, or the actor closes with the container terminated. -/
def Good (spec : Spec) (s : System) (m : Message) (rest : List (Letter Message)) : Prop :=
  Progress parent (s.actor.state.receive m).state.container
      (s.actor.told ++ (s.actor.state.receive m).told) ∧
    ((s.actor.state.receive m).ending = .done ∧ Open spec (handled s m rest) ∨
      (s.actor.state.receive m).ending = .failed ∧
        (s.actor.state.receive m).state.container = .terminated)

section Handlers

variable {rest : List (Letter Message)}

/-- The handler changes nothing but what it tells. -/
theorem good_unchanged (h : Open spec s) (hp : Progress parent s.actor.state.container s.actor.told)
    (hin : s.actor.inbox = .msg m :: rest) (hm : m ≠ .preStart) (l : List Told)
    (more : List (Letter Message))
    (hr : s.actor.state.receive m = ⟨s.actor.state, l, more, .done⟩)
    (hl : l = [] ∨ ∃ x, l = [x] ∧ parent.reports x = none ∧ x.isPullImage = false ∧
      x.isRunContainer = false ∧ x.isNewChecker = false ∧
      (parent.hears x = true → s.actor.state.container ≠ .terminated))
    (hmore : ∀ x ∈ more, ∃ signal, x = .msg (.signalContainer signal)) : Good spec s m rest := by
  have ht : Took s (handled s m rest) m more := by simpa [hr] using took_handled hin
  refine ⟨?_, .inl ⟨by rw [hr], open_unchanged h ht hm (by simp [handled, Live.react, hr])
    ⟨l, by simp [handled, Live.react, hr], fun x hx => ?_⟩ hmore⟩⟩
  · rw [hr]
    obtain rfl | ⟨x, rfl, hx, -, -, -, hhear⟩ := hl
    · simpa using hp
    · by_cases hh : parent.hears x = true
      · exact hp.other (hhear hh) hx hh
      · exact hp.append (by simpa using hh)
  · obtain rfl | ⟨y, rfl, -, hy⟩ := hl
    · cases hx
    · rw [List.mem_singleton.mp hx]
      exact ⟨hy.1, hy.2.1, hy.2.2.1⟩

theorem good_preStart (h : Open spec s)
    (hp : Progress parent s.actor.state.container s.actor.told)
    (hin : s.actor.inbox = .msg .preStart :: rest)
    (ho : Orderly s.actor.state .preStart) : Good spec s .preStart rest := by
  have hhead : Letter.msg Message.preStart ∈ s.actor.inbox := by simp [hin]
  have hc := h.preStart_mem hhead
  have hspec : s.actor.state.spec = some spec := by
    refine h.spec_eq.resolve_right fun hs => ?_
    exact (h.info_state hs.2).1 hc
  obtain ⟨base, hbase⟩ := Option.isSome_iff_exists.mp (ho spec hspec)
  have hr : s.actor.state.receive .preStart =
      ⟨{ s.actor.state with container := .pulling, baseTrialLog := base },
        [.stateChanged .pulling none none, .pullImage spec.image], [], .done⟩ := by
    simp [ContainerActor.receive, ContainerActor.receivePreStart, ContainerActor.transition, hc,
      State.transition, validTransitions, ContainerActor.withSpec, hspec, hbase]
  have ht : Took s (handled s .preStart rest) .preStart [] := by simpa [hr] using took_handled hin
  refine ⟨?_, .inl ⟨by rw [hr], open_pulling h ?_ ?_ ht ?_ ?_ ?_⟩⟩
  · rw [hr]
    rw [hc] at hp
    have hchange := hp.change (t := .pulling) (m := .stateChanged .pulling none none) rfl rfl
    have happ := hchange.append (by simp [parent] : ∀ x ∈ [Told.pullImage spec.image],
      parent.hears x = false)
    rwa [List.append_assoc] at happ
  all_goals simp [handled, Live.react, hr, Told.isRunContainer, Told.isNewChecker]

theorem good_imagePulled (h : Open spec s)
    (hp : Progress parent s.actor.state.container s.actor.told)
    (hin : s.actor.inbox = .msg .imagePulled :: rest)
    (ho : s.actor.state.container ≠ .terminated) : Good spec s .imagePulled rest := by
  have hhead : Letter.msg Message.imagePulled ∈ s.actor.inbox := by simp [hin]
  obtain ⟨-, hcase, hnone⟩ := h.pulled_mem hhead
  have hc := hcase.resolve_right ho
  have hspec : s.actor.state.spec = some spec :=
    h.spec_eq.resolve_right fun hs => by simp [hnone] at hs
  have hr : s.actor.state.receive .imagePulled = ⟨{ s.actor.state with container := .starting },
      [.stateChanged .starting none none, .runContainer spec], [], .done⟩ := by
    simp [ContainerActor.receive, ContainerActor.receiveImagePulled, ContainerActor.transition, hc,
      State.transition, validTransitions, ContainerActor.withSpec, hspec]
  have ht : Took s (handled s .imagePulled rest) .imagePulled [] := by
    simpa [hr] using took_handled hin
  refine ⟨?_, .inl ⟨by rw [hr], open_starting h ?_ ?_ ht ?_ ho ?_⟩⟩
  · rw [hr]
    rw [hc] at hp
    have hchange := hp.change (t := .starting) (m := .stateChanged .starting none none) rfl rfl
    have happ := hchange.append (by simp [parent] : ∀ x ∈ [Told.runContainer spec],
      parent.hears x = false)
    rwa [List.append_assoc] at happ
  all_goals simp [handled, Live.react, hr, Told.isNewChecker]

theorem good_containerReady (h : Open spec s)
    (hp : Progress parent s.actor.state.container s.actor.told)
    (hin : s.actor.inbox = .msg .containerReady :: rest)
    (ho : s.actor.state.container ≠ .terminated) : Good spec s .containerReady rest := by
  have hhead : Letter.msg Message.containerReady ∈ s.actor.inbox := by simp [hin]
  obtain ⟨hcase, hsome, -⟩ := h.ready_mem hhead
  have hc := hcase.resolve_right ho
  obtain ⟨info, hinfo⟩ := Option.isSome_iff_exists.mp hsome
  have hr : s.actor.state.receive .containerReady = ⟨{ s.actor.state with container := .running },
      [.stateChanged .running (some info) none], [], .done⟩ := by
    simp [ContainerActor.receive, ContainerActor.receiveContainerReady, ContainerActor.transition,
      hc, State.transition, validTransitions, hinfo]
  have ht : Took s (handled s .containerReady rest) .containerReady [] := by
    simpa [hr] using took_handled hin
  refine ⟨?_, .inl ⟨by rw [hr], open_running h ?_ ?_ ht ?_ ho ?_⟩⟩
  · rw [hr]
    rw [hc] at hp
    exact hp.change (t := .running) rfl rfl
  all_goals simp [handled, Live.react, hr, Told.isNewChecker]

theorem good_containerStarted (h : Open spec s)
    (hp : Progress parent s.actor.state.container s.actor.told) {info : String}
    {checker : Option String} (hin : s.actor.inbox = .msg (.containerStarted info checker) :: rest)
    (ho : Orderly s.actor.state (.containerStarted info checker)) :
    Good spec s (.containerStarted info checker) rest := by
  have hhead : Letter.msg (Message.containerStarted info checker) ∈ s.actor.inbox := by simp [hin]
  obtain ⟨-, hc, hnone⟩ := h.started_mem _ _ hhead
  have hspec : s.actor.state.spec = some spec :=
    h.spec_eq.resolve_right fun hs => by simp [hnone] at hs
  have ht := took_handled hin
  cases hchecks : spec.checks.isEmpty with
  | true =>
    have hr : s.actor.state.receive (.containerStarted info checker) =
        ⟨{ s.actor.state with containerInfo := some info }, [], [.msg .containerReady], .done⟩ := by
      simp [ContainerActor.receive, ContainerActor.receiveContainerStarted, ContainerActor.withSpec,
        hspec, hchecks]
    refine ⟨by rw [hr]; simpa using hp, .inl ⟨by rw [hr], open_started h ht ?_ ?_ (.inl ⟨?_, ?_, ?_⟩)⟩⟩
    all_goals simp [handled, Live.react, hr]
  | false =>
    obtain rfl := ho spec hspec hchecks
    have hr : s.actor.state.receive (.containerStarted info none) =
        ⟨{ s.actor.state with containerInfo := some info, spec := none }, [.newChecker], [],
          .done⟩ := by
      simp [ContainerActor.receive, ContainerActor.receiveContainerStarted, ContainerActor.withSpec,
        hspec, hchecks]
    refine ⟨?_, .inl ⟨by rw [hr], open_started h ht ?_ ?_ (.inr ⟨?_, ?_, ?_⟩)⟩⟩
    · rw [hr]
      exact hp.append (by simp [parent])
    all_goals simp [handled, Live.react, hr]

/-- The container stops, and the actor will. -/
theorem good_stop (h : Open spec s) (hp : Progress parent s.actor.state.container s.actor.told)
    (hin : s.actor.inbox = .msg m :: rest) (hm : m ≠ .preStart) (stopped : ContainerStopped)
    (hr : s.actor.state.receive m = s.actor.state.containerStopped stopped [.stop] .done)
    (hno : ∀ info checker, .msg (.containerStarted info checker) ∉ rest)
    (hcreating : s.creating = false) : Good spec s m rest := by
  obtain ⟨hc, hprog, hend, hself⟩ := progress_containerStopped hp stopped [.stop] .done
  have ht : Took s (handled s m rest) m [.stop] := by
    have := took_handled hin
    rwa [hr, hself] at this
  obtain ⟨l, hl, hnone⟩ : ∃ l, (s.actor.state.containerStopped stopped [.stop] .done).told = l ∧
      ∀ x ∈ l, x.isRunContainer = false ∧ x.isNewChecker = false := by
    refine ⟨_, rfl, ?_⟩
    rw [containerStopped_eq]
    split <;> simp [Told.isRunContainer, Told.isNewChecker]
  have hany : ∀ p : Told → Bool, (∀ x ∈ l, p x = false) →
      (handled s m rest).actor.told.any p = s.actor.told.any p := by
    intro p hpl
    have hnil : l.any p = false := List.any_eq_false.mpr fun x hx => by simp [hpl x hx]
    rw [handled, Live.react, hr, hl, List.any_append, hnil, Bool.or_false]
  refine ⟨by rw [hr, hc]; exact hprog, .inl ⟨by rw [hr, hend], open_terminated h ?_ ?_ ht hm ?_
    (hany _ fun x hx => (hnone x hx).2) (fun info checker hx => ?_) ?_⟩⟩
  · rw [handled, Live.react, hr, containerStopped_eq]
    split <;> rfl
  · rw [handled, Live.react, hr, containerStopped_eq]
    split <;> rfl
  · rw [handled, Live.react, hr, hc]
  · have hmem : Letter.msg (Message.containerStarted info checker) ∈ rest ++ [.stop] := by
      simpa [handled, Live.react, hr, hself] using hx
    exact hno info checker (by simpa using hmem)
  · rw [← hcreating, System.creating, System.creating, hany _ fun x hx => (hnone x hx).1]
    rfl

/-- The container fails, and the actor with it. -/
theorem good_fail (hp : Progress parent s.actor.state.container s.actor.told)
    {stopped : ContainerStopped}
    (hr : s.actor.state.receive m = s.actor.state.containerStopped stopped [] .failed) :
    Good spec s m rest := by
  obtain ⟨hc, hprog, hend, -⟩ := progress_containerStopped hp stopped [] .failed
  exact ⟨by rw [hr, hc]; exact hprog, .inr ⟨by rw [hr, hend], by rw [hr, hc]⟩⟩

theorem good_signal (h : Open spec s) (hp : Progress parent s.actor.state.container s.actor.told)
    {signal : Signal} (hin : s.actor.inbox = .msg (.signalContainer signal) :: rest) :
    Good spec s (.signalContainer signal) rest := by
  have hhead : Letter.msg (Message.signalContainer signal) ∈ s.actor.inbox := by simp [hin]
  cases hc : s.actor.state.container with
  | assigned =>
    obtain ⟨rest', hin'⟩ := h.assigned hc
    rw [hin] at hin'
    cases hin'
  | pulling =>
    by_cases hstops : signal.stops = true
    · have hno : s.actor.told.any Told.isRunContainer = false :=
        Bool.eq_false_iff.mpr fun hr => (h.run_told hr).2 hc
      refine good_stop h hp hin (by simp) ⟨none⟩ ?_ (fun info checker hx => ?_) ?_
      · simp [ContainerActor.receive, ContainerActor.receiveSignal, hc, hstops]
      · have := (h.started_mem info checker (by rw [hin]; exact List.mem_cons_of_mem _ hx)).2.1
        simp [hc] at this
      · simp [System.creating, hno]
    · refine good_unchanged h hp hin (by simp) [] [] ?_ (.inl rfl) (by simp)
      simp [ContainerActor.receive, ContainerActor.receiveSignal, hc, hstops]
  | starting =>
    refine good_unchanged h hp hin (by simp) []
      [.msg (.signalContainer signal)] ?_ (.inl rfl)
      fun x hx => ⟨signal, List.mem_singleton.mp hx⟩
    simp [ContainerActor.receive, ContainerActor.receiveSignal, hc]
  | running =>
    obtain ⟨info, hinfo⟩ := Option.isSome_iff_exists.mp (h.info_of_running hc)
    refine good_unchanged h hp hin (by simp) [.signalDocker info signal] [] ?_
      (.inr ⟨_, rfl, rfl, rfl, rfl, rfl, fun hh => by cases hh⟩) (by simp)
    simp [ContainerActor.receive, ContainerActor.receiveSignal, hc, hinfo]
  | terminated =>
    refine good_unchanged h hp hin (by simp) [] [] ?_ (.inl rfl) (by simp)
    simp [ContainerActor.receive, ContainerActor.receiveSignal, hc]

/-- How a log line is passed on, while there is a spec. -/
theorem receiveLog_eq (h : Open spec s) {log : ContainerLog}
    (hin : s.actor.inbox = .msg (.containerLog log) :: rest) (hspec : s.actor.state.spec.isSome) :
    ∃ x, s.actor.state.receive (.containerLog log) = ⟨s.actor.state, [x], [], .done⟩ ∧
      parent.hears x = true ∧ parent.reports x = none ∧ x.isPullImage = false ∧
      x.isRunContainer = false ∧ x.isNewChecker = false := by
  have hhead : Letter.msg (Message.containerLog log) ∈ s.actor.inbox := by simp [hin]
  have hspec : s.actor.state.spec = some spec := h.spec_eq.resolve_right fun hs => by
    simp [hs.1] at hspec
  cases hf : spec.useFluentLogging with
  | false =>
    exact ⟨.containerLog s.actor.state.container log, by
      simp [ContainerActor.receive, ContainerActor.receiveLog, ContainerActor.withSpec, hspec, hf],
      rfl, rfl, rfl, rfl, rfl⟩
  | true =>
    obtain ⟨trialLog, hlog⟩ : ∃ l, makeTrialLog s.actor.state.baseTrialLog log = some l := by
      cases log with
      | aux text => exact ⟨_, rfl⟩
      | pull text => exact ⟨_, rfl⟩
      | run text => exact absurd hhead (h.run_log hf text)
    exact ⟨.trialLog trialLog, by
      simp [ContainerActor.receive, ContainerActor.receiveLog, ContainerActor.withSpec, hspec, hf,
        hlog], rfl, rfl, rfl, rfl, rfl⟩

/-- An orderly message is handled well. -/
theorem receive_good (h : Open spec s) (hp : Progress parent s.actor.state.container s.actor.told)
    (hin : s.actor.inbox = .msg m :: rest) (hm : Orderly s.actor.state m) : Good spec s m rest := by
  have hhead : Letter.msg m ∈ s.actor.inbox := by simp [hin]
  cases m with
  | preStart => exact good_preStart h hp hin hm
  | imagePulled => exact good_imagePulled h hp hin hm
  | containerStarted info checker => exact good_containerStarted h hp hin hm
  | containerReady => exact good_containerReady h hp hin hm
  | containerTerminated code =>
    refine good_stop h hp hin (by simp) _ rfl (fun info checker hx => ?_) ?_
    · have hord := h.order
      rw [hin] at hord
      exact absurd ((List.pairwise_cons.mp hord).1 _ hx) (by simp [Clash])
    · simp [System.creating, h.exited_mem code hhead]
  | signalContainer signal => exact good_signal h hp hin
  | containerLog log =>
    obtain ⟨x, hr, -, hrep, hkinds⟩ := receiveLog_eq h hin hm.2
    exact good_unchanged h hp hin (by simp) _ _ hr
      (.inr ⟨x, rfl, hrep, hkinds.1, hkinds.2.1, hkinds.2.2, fun _ => hm.1⟩) (by simp)
  | childFailed err => exact good_fail hp rfl
  | dockerErr err => exact good_fail hp rfl

/-- Any other message panics, closes the actor while its container is up, or has the parent told
    something after the end. -/
theorem receive_bad (h : Open spec s) (hin : s.actor.inbox = .msg m :: rest)
    (hm : ¬ Orderly s.actor.state m) :
    (s.actor.state.receive m).ending = .panicked ∨
    ((s.actor.state.receive m).ending = .failed ∧ s.actor.state.container ≠ .terminated ∧
      (s.actor.state.receive m).told = []) ∨
    ((s.actor.state.receive m).ending = .done ∧ s.actor.state.container = .terminated ∧
      ∃ x, parent.hears x = true ∧ (s.actor.state.receive m).told = [x]) := by
  have hhead : Letter.msg m ∈ s.actor.inbox := by simp [hin]
  cases m with
  | preStart =>
    refine .inl ?_
    have hc := h.preStart_mem hhead
    simp only [Orderly, not_forall] at hm
    obtain ⟨spec', hspec, hbase⟩ := hm
    simp [ContainerActor.receive, ContainerActor.receivePreStart, ContainerActor.transition, hc,
      State.transition, validTransitions, ContainerActor.withSpec, hspec,
      Option.not_isSome_iff_eq_none.mp hbase]
  | imagePulled =>
    have hc : s.actor.state.container = .terminated := not_not.mp hm
    simp [ContainerActor.receive, ContainerActor.receiveImagePulled, ContainerActor.transition, hc,
      State.transition, validTransitions]
  | containerReady =>
    have hc : s.actor.state.container = .terminated := not_not.mp hm
    obtain ⟨info, hinfo⟩ := Option.isSome_iff_exists.mp (h.ready_mem hhead).2.1
    simp [ContainerActor.receive, ContainerActor.receiveContainerReady, ContainerActor.transition,
      hc, State.transition, validTransitions, hinfo]
  | containerStarted info checker =>
    refine .inr (.inl ?_)
    obtain ⟨-, hc, -⟩ := h.started_mem _ _ hhead
    simp only [Orderly, not_forall] at hm
    obtain ⟨spec', hspec, hchecks, hchecker⟩ := hm
    obtain ⟨err, rfl⟩ := Option.ne_none_iff_exists'.mp hchecker
    simp [ContainerActor.receive, ContainerActor.receiveContainerStarted, ContainerActor.withSpec,
      hspec, hchecks, hc]
  | containerLog log =>
    by_cases hspec : s.actor.state.spec.isSome
    · obtain ⟨x, hr, hhear, -⟩ := receiveLog_eq h hin hspec
      have hc : s.actor.state.container = .terminated := by
        by_contra hne
        exact hm ⟨hne, hspec⟩
      exact .inr (.inr ⟨by rw [hr], hc, x, hhear, by rw [hr]⟩)
    · refine .inl ?_
      simp [ContainerActor.receive, ContainerActor.receiveLog, ContainerActor.withSpec,
        Option.not_isSome_iff_eq_none.mp hspec]
  | containerTerminated code => exact absurd trivial hm
  | signalContainer signal => exact absurd trivial hm
  | childFailed err => exact absurd trivial hm
  | dockerErr err => exact absurd trivial hm

/-- A message that ends the container leaves it terminated. -/
theorem receive_ends (hp : Progress parent s.actor.state.container s.actor.told)
    (hm : Ends s.actor.state m) :
    .terminated ∈ parent.reported (s.actor.told ++ (s.actor.state.receive m).told) := by
  obtain ⟨stopped, toSelf, ending, hr⟩ : ∃ stopped toSelf ending,
      s.actor.state.receive m = s.actor.state.containerStopped stopped toSelf ending := by
    cases m with
    | containerTerminated code => exact ⟨_, _, _, rfl⟩
    | childFailed err => exact ⟨_, _, _, rfl⟩
    | dockerErr err => exact ⟨_, _, _, rfl⟩
    | signalContainer signal =>
      obtain ⟨hstops, hc⟩ := hm
      refine ⟨⟨none⟩, [.stop], .done, ?_⟩
      obtain hc | hc := hc <;> simp [ContainerActor.receive, ContainerActor.receiveSignal, hc, hstops]
    | preStart => exact hm.elim
    | imagePulled => exact hm.elim
    | containerStarted info checker => exact hm.elim
    | containerReady => exact hm.elim
    | containerLog log => exact hm.elim
  rw [hr]
  exact (progress_containerStopped hp stopped toSelf ending).2.1.terminated_iff.mpr rfl

end Handlers

/-! ### Runs -/

abbrev AgentStep (spec : Spec) := System.Step spec.useFluentLogging

/-- The step leaves everything in order, and if it ends the container, the end is reported. -/
def Edge.Lawful (x : Edge System Event) : Prop :=
  Agent.Lawful x.post.actor ∧ (x.event = .process → ∀ m, x.pre.actor.next = some m →
    Ends x.pre.actor.state m → .terminated ∈ parent.reported x.post.actor.told)

/-- If the actor takes a message, it is one it can take. -/
def Edge.Orderly (x : Edge System Event) : Prop :=
  x.event = .process → ∀ m, x.pre.actor.next = some m → Agent.Orderly x.pre.actor.state m

/-- The ways a step of the actor takes a letter. -/
theorem process_cases (h : Steady spec s) (hstep : AgentStep spec s .process t) :
    s.actor.closed = false ∧
      ((∃ rest, s.actor.inbox = .stop :: rest ∧
          t = { s with actor := s.actor.close containerBehaviour }) ∨
        ∃ m rest, s.actor.inbox = .msg m :: rest ∧
          ((s.actor.state.receive m).ending = .done ∧ t = handled s m rest ∨
            (s.actor.state.receive m).ending ≠ .done ∧
              t = { s with actor := (handled s m rest).actor.close containerBehaviour })) := by
  obtain ⟨a, ha, rfl⟩ := Option.map_eq_some_iff.mp hstep
  have hcases := Live.process_cases ha
  refine ⟨Bool.eq_false_iff.mpr fun hclosed => ?_, ?_⟩
  · obtain ⟨rest, hin, -⟩ | ⟨m, rest, hin, -⟩ := hcases <;> simp [(h.closed hclosed).2] at hin
  · obtain ⟨rest, hin, rfl⟩ | ⟨m, rest, hin, ⟨hend, rfl⟩ | ⟨hend, rfl⟩⟩ := hcases
    · exact .inl ⟨rest, hin, rfl⟩
    · exact .inr ⟨m, rest, hin, .inl ⟨hend, rfl⟩⟩
    · exact .inr ⟨m, rest, hin, .inr ⟨hend, rfl⟩⟩

/-- Closing the actor drops its inbox and tells nobody. -/
theorem steady_close {a : Live ContainerActor Message Told} (hpanic : a.panicked = false)
    (hp : Progress parent a.state.container a.told) (hc : a.state.container = .terminated) :
    Steady spec { s with actor := a.close containerBehaviour } :=
  ⟨hpanic, by simpa [Live.close, containerBehaviour] using hp, fun _ => ⟨hc, rfl⟩,
    fun hopen => by simp [Live.close] at hopen⟩

theorem steady_step {e : Event} (h : Steady spec s) (hstep : AgentStep spec s e t)
    (hG : Edge.Orderly ⟨s, e, t⟩) : Steady spec t := by
  by_cases he : e = .process
  · subst he
    obtain ⟨hopen, ⟨rest, hin, rfl⟩ | ⟨m, rest, hin, hcase⟩⟩ := process_cases h hstep
    · exact steady_close h.no_panic h.progress ((h.opened hopen).stop_mem (by simp [hin]))
    · have hm : Orderly s.actor.state m := hG rfl m (by simp [Live.next, hin])
      obtain ⟨hprog, ⟨hend, hopen'⟩ | ⟨hend, hterm⟩⟩ := receive_good (h.opened hopen) h.progress hin hm
      · obtain ⟨-, rfl⟩ | ⟨hne, -⟩ := hcase
        · exact ⟨by simp [handled, Live.react, h.no_panic, hend], hprog,
            fun hclosed => by simp [handled, Live.react, hopen] at hclosed, fun _ => hopen'⟩
        · exact absurd hend hne
      · obtain ⟨hdone, -⟩ | ⟨-, rfl⟩ := hcase
        · exact absurd (hdone.symm.trans hend) (by decide)
        · exact steady_close (by simp [handled, Live.react, h.no_panic, hend]) hprog hterm
  · exact h.send he hstep

theorem Steady.lawful (h : Steady spec s) : Lawful s.actor :=
  ⟨h.no_panic, h.progress.inOrder, fun hc => h.progress.terminated_iff.mpr (h.closed hc).1⟩

theorem lawful_iff_step {e : Event} (h : Steady spec s) (hstep : AgentStep spec s e t) :
    Edge.Lawful ⟨s, e, t⟩ ↔ Edge.Orderly ⟨s, e, t⟩ := by
  refine ⟨fun hlaw he m hnext => ?_, fun hG => ⟨(steady_step h hstep hG).lawful, ?_⟩⟩
  · by_contra hm
    cases he
    obtain ⟨hopen, ⟨rest, hin, -⟩ | ⟨m', rest, hin, hcase⟩⟩ := process_cases h hstep
    · simp [Live.next, hin] at hnext
    · obtain rfl : m' = m := by simpa [Live.next, hin] using hnext
      rcases receive_bad (h.opened hopen) hin hm with hend | ⟨hend, hc, htold⟩ | ⟨hend, hc, x, hx, htold⟩
      · obtain ⟨hdone, -⟩ | ⟨-, rfl⟩ := hcase
        · exact absurd (hdone.symm.trans hend) (by decide)
        · have := hlaw.1.no_panic
          simp [handled, Live.close, Live.react, hend] at this
      · obtain ⟨hdone, -⟩ | ⟨-, rfl⟩ := hcase
        · exact absurd (hdone.symm.trans hend) (by decide)
        · have hreported := hlaw.1.reported_end rfl
          simp only [handled, Live.close, Live.react, containerBehaviour, htold,
            List.append_nil] at hreported
          exact hc (h.progress.eq_terminated hreported)
      · obtain ⟨-, rfl⟩ | ⟨hne, -⟩ := hcase
        · have horder := hlaw.1.in_order
          simp only [handled, Live.react, htold] at horder
          exact (hc ▸ h.progress).not_inOrder hx horder
        · exact absurd hend hne
  · rintro rfl m hnext hends
    obtain ⟨-, ⟨rest, hin, -⟩ | ⟨m', rest, hin, hcase⟩⟩ := process_cases h hstep
    · simp [Live.next, hin] at hnext
    · obtain rfl : m' = m := by simpa [Live.next, hin] using hnext
      have hmem := receive_ends h.progress hends
      obtain ⟨-, rfl⟩ | ⟨-, rfl⟩ := hcase
      · exact hmem
      · simpa [handled, Live.close, Live.react, containerBehaviour] using hmem

/-- CORRECT: over the life of a container actor, whatever its senders send and in whatever order it
    arrives, the actor does not panic, the states it reports are a path of valid transitions, and an
    end of the container is reported once with nothing after it, just if: every variable of the spec
    has a value; the readiness checks can be set up; no image is reported pulled and no container
    ready after the container was declared terminated; and no log line is handled after that, or
    after the spec was evicted. -/
theorem end_reported_iff {tr : List (Edge System Event)}
    (h : Run (AgentStep spec) (System.start spec) tr s) :
    (∀ x ∈ tr, Edge.Lawful x) ↔ ∀ x ∈ tr, Edge.Orderly x :=
  h.forall_iff (I := Steady spec) (P := Edge.Lawful) (G := Edge.Orderly)
    (fun _ _ _ hI hst => lawful_iff_step hI hst) (fun _ _ _ hI hst hG => steady_step hI hst hG)
    (steady_start spec)

/-! ### Two lives -/

/-- A command whose readiness is checked on one port. -/
def checkedSpec : Spec := ⟨"image", ["PATH=/bin"], [8888], false⟩

/-- The run of a container with these events, up to a summary. -/
theorem exists_life {α : Type} (events : List Event) (summary : System → α) (v : α)
    (h : (exec (System.turn · checkedSpec.useFluentLogging) (System.start checkedSpec) events).map
      (fun r => summary r.2) = some v) :
    ∃ tr s, Run (AgentStep checkedSpec) (System.start checkedSpec) tr s ∧
      tr.map (·.event) = events ∧ summary s = v :=
  Run.exists_of_exec (fun _ _ _ => id) (fun r => summary r.2) h

/-- The end of a container that gets ready, runs and exits is reported. -/
theorem end_reported_iff_ready_and_exit : ∃ tr s,
    Run (AgentStep checkedSpec) (System.start checkedSpec) tr s ∧
      parent.reported s.actor.told = [.pulling, .starting, .running, .terminated] ∧
      ((∀ x ∈ tr, Edge.Lawful x) ↔ ∀ x ∈ tr, Edge.Orderly x) := by
  obtain ⟨tr, s, hrun, -, hreported⟩ := exists_life
    [.process, .imagePulled, .process, .containerStarted "docker" none, .process, .containerReady,
      .process, .containerTerminated 0, .process, .process]
    (fun s => parent.reported s.actor.told) [.pulling, .starting, .running, .terminated]
    (by decide +kernel)
  exact ⟨tr, s, hrun, hreported, end_reported_iff hrun⟩

/-- The container is killed while its image is pulled; the image arrives before the actor stops, and
    the actor panics on it. -/
theorem image_after_kill_panics : ∃ tr s,
    Run (AgentStep checkedSpec) (System.start checkedSpec) tr s ∧
      tr.map (·.event) = [.process, .signalContainer .sigkill, .imagePulled, .process, .process] ∧
      s.actor.panicked = true ∧ ¬ Lawful s.actor := by
  obtain ⟨tr, s, hrun, hevents, hpanic⟩ := exists_life
    [.process, .signalContainer .sigkill, .imagePulled, .process, .process]
    (fun s => s.actor.panicked) true (by decide +kernel)
  exact ⟨tr, s, hrun, hevents, hpanic, fun h => by simp [h.no_panic] at hpanic⟩

end Determined.Agent
