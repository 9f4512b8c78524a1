import Determined.Coordinator.RWCoordinator

/-! Who holds a resource, over whole runs of the coordinator.

    As long as a write lock is only asked for while nobody holds the resource, the coordinator's
    fields say exactly what the clients hold (`Agrees`), no writer ever waits, and the resource has
    one writer or some readers. A write request that finds the resource held breaks that at once:
    `processWriteLockRequests` makes it wait only if there is a writer *and* there are readers, where
    either is enough. The main result is `exclusive_iff`. -/

namespace Determined.Coordinator
open Determined.Schemes

namespace ResourceRWLockStatus

variable {st : ResourceRWLockStatus}

/-- What a resource looks like between two messages if no writer had to wait. -/
structure Settled (st : ResourceRWLockStatus) : Prop where
  noWriterWaits : st.writeLocksWaiting = ∅
  alone : st.writeLockOwner ≠ none → st.readLockOwners = ∅
  noReaderWaits : st.writeLockOwner = none → st.readLocksWaiting = ∅

theorem settled_new : Settled newLockStatus := ⟨rfl, fun _ => rfl, fun _ => rfl⟩

/-- With no writer waiting, only the readers are looked at. -/
theorem processWaitingRequests_of_noWriter (h : st.writeLocksWaiting = ∅) (order : RangeOrder) :
    st.processWaitingRequests order =
      if st.writeLockOwner = none then
        ({ st with
            readLocksWaiting := ∅
            readLockOwners := st.readLockOwners ∪ st.readLocksWaiting },
          st.readLocksWaiting.image (·, Lock.read))
      else (st, ∅) := by
  have hw : st.processWriteLockRequests order = (st, ∅) := by
    unfold processWriteLockRequests
    split <;> simp
  unfold processWaitingRequests
  rw [hw]
  unfold processReadLockRequests
  by_cases hown : st.writeLockOwner = none
  · simp [hown, h]
  · simp [hown]

/-- The write lock is granted to whoever asks for it, held or not. -/
theorem Settled.request_write (h : Settled st) (ref : ℕ) (order : RangeOrder) :
    (st.wait ref false).processWaitingRequests order =
      ({ st with writeLockOwner := some ref }, {(ref, .write)}) := by
  have hfirst : order.first {ref} = ref :=
    Finset.mem_singleton.mp (order.mem {ref} (Finset.singleton_nonempty ref))
  have hguard : ¬ (st.writeLockOwner ≠ none ∧ st.readLockOwners.card ≠ 0) := by
    rintro ⟨hown, hcard⟩
    exact hcard (Finset.card_eq_zero.mpr (h.alone hown))
  have hw : (st.wait ref false).processWriteLockRequests order =
      ({ st with writeLockOwner := some ref }, {(ref, .write)}) := by
    simp only [wait, processWriteLockRequests, if_neg hguard, h.noWriterWaits, hfirst,
      Bool.false_eq_true, if_false, insert_empty_eq, Finset.singleton_ne_empty,
      Finset.erase_singleton]
  unfold processWaitingRequests
  rw [hw]
  simp [processReadLockRequests]

theorem Settled.request_read (h : Settled st) (ref : ℕ) (order : RangeOrder) :
    (st.wait ref true).processWaitingRequests order =
      if st.writeLockOwner = none then
        ({ st with readLockOwners := insert ref st.readLockOwners }, {(ref, .read)})
      else (st.wait ref true, ∅) := by
  rw [processWaitingRequests_of_noWriter (by simpa [wait] using h.noWriterWaits)]
  by_cases hown : st.writeLockOwner = none
  · rw [if_pos (by simpa [wait] using hown), if_pos hown]
    simp only [wait, if_true, h.noReaderWaits hown, insert_empty_eq, Finset.image_singleton,
      Finset.union_singleton]
  · rw [if_neg (by simpa [wait] using hown), if_neg hown]

/-- A writer that gives up the lock lets in all readers that waited for it; anyone else's leaving
    lets nobody in. -/
theorem Settled.release (h : Settled st) (ref : ℕ) (order : RangeOrder) :
    (st.giveUp ref).processWaitingRequests order =
      if st.writeLockOwner = some ref then
        (⟨st.readLocksWaiting, none, ∅, ∅⟩, st.readLocksWaiting.image (·, Lock.read))
      else (st.giveUp ref, ∅) := by
  rw [processWaitingRequests_of_noWriter (by unfold giveUp; split <;> simp [h.noWriterWaits])]
  by_cases href : st.writeLockOwner = some ref
  · have halone := h.alone (by simp [href])
    simp [giveUp, href, halone, h.noWriterWaits]
  · rw [if_neg href]
    by_cases hown : st.writeLockOwner = none
    · simp [giveUp, hown, h.noReaderWaits hown, h.noWriterWaits]
    · simp [giveUp, href, hown]

end ResourceRWLockStatus

open ResourceRWLockStatus

/-! ### Runs -/

/-- The coordinator and its clients: what was granted to them and not given up. -/
structure LockSystem where
  coordinator : RWCoordinator
  granted : Grants

def newLockSystem : LockSystem := ⟨newRWCoordinator, ∅⟩

/-- A request for the read or the write lock of a resource, or a socket that is gone. -/
inductive LockEvent where
  | request (resource : String) (readLock : Bool) (order : RangeOrder)
  | release (ref : ℕ) (order : RangeOrder)

namespace LockSystem

variable (s : LockSystem)

def next : LockEvent → LockSystem
  | .request resource readLock order =>
    let r := s.coordinator.processResourceRequest resource readLock order
    ⟨r.1, s.granted ∪ r.2⟩
  | .release ref order =>
    let r := s.coordinator.processResourceRelease ref order
    ⟨r.1, s.granted.filter (·.1 ≠ ref) ∪ r.2⟩

/-- A client holds the lock of a resource: it was granted and not given up. -/
def Holds (resource : String) (lock : Lock) (ref : ℕ) : Prop :=
  (ref, lock) ∈ s.granted ∧ s.coordinator.actorToLockStatusMap ref = some resource

instance (resource : String) (lock : Lock) (ref : ℕ) : Decidable (s.Holds resource lock ref) :=
  inferInstanceAs (Decidable (_ ∧ _))

/-- Nobody holds the resource. -/
def Free (resource : String) : Prop :=
  ∀ p ∈ s.granted, s.coordinator.actorToLockStatusMap p.1 ≠ some resource

instance (resource : String) : Decidable (s.Free resource) :=
  inferInstanceAs (Decidable (∀ p ∈ s.granted, _))

/-- Mutual exclusion: a resource that has a writer has no other, and no reader. -/
structure Exclusive : Prop where
  oneWriter : ∀ resource w w', s.Holds resource .write w → s.Holds resource .write w' → w = w'
  noReader : ∀ resource w r, s.Holds resource .write w → ¬ s.Holds resource .read r

/-- The fields of one resource say which clients hold it, and who waits holds nothing. -/
structure AgreesOn (resource : String) : Prop where
  settled : Settled (s.coordinator.status resource)
  writer : ∀ ref,
    s.Holds resource .write ref ↔ (s.coordinator.status resource).writeLockOwner = some ref
  reader : ∀ ref,
    s.Holds resource .read ref ↔ ref ∈ (s.coordinator.status resource).readLockOwners
  waiting : ∀ ref ∈ (s.coordinator.status resource).readLocksWaiting,
    s.coordinator.actorToLockStatusMap ref = some resource ∧ ∀ lock, (ref, lock) ∉ s.granted

/-- The coordinator's fields say what the clients hold, and no writer waits. -/
structure Agrees : Prop where
  fresh : ∀ ref, s.coordinator.numResourceRequests ≤ ref →
    s.coordinator.actorToLockStatusMap ref = none
  known : ∀ p ∈ s.granted, s.coordinator.actorToLockStatusMap p.1 ≠ none
  on : ∀ resource, s.AgreesOn resource

variable {s}

theorem free_iff {resource : String} : s.Free resource ↔ ∀ lock ref, ¬ s.Holds resource lock ref :=
  ⟨fun h lock ref hh => h (ref, lock) hh.1 hh.2, fun h p hp hr => h p.2 p.1 ⟨hp, hr⟩⟩

theorem agrees_new : newLockSystem.Agrees where
  fresh _ _ := rfl
  known := by simp [newLockSystem]
  on resource := by
    refine ⟨settled_new, ?_, ?_, ?_⟩ <;>
      simp [newLockSystem, Holds, RWCoordinator.status, newRWCoordinator, newLockStatus]

theorem Agrees.exclusive (h : s.Agrees) : s.Exclusive where
  oneWriter resource w w' hw hw' := by
    rw [(h.on resource).writer] at hw hw'
    exact Option.some.inj (hw.symm.trans hw')
  noReader resource w r hw hr := by
    rw [(h.on resource).writer] at hw
    rw [(h.on resource).reader, (h.on resource).settled.alone (by simp [hw])] at hr
    exact Finset.notMem_empty r hr

/-- The next socket was granted nothing yet. -/
theorem Agrees.next_not_granted (h : s.Agrees) (lock : Lock) :
    (s.coordinator.numResourceRequests, lock) ∉ s.granted :=
  fun hmem => h.known _ hmem (h.fresh _ (le_refl _))

/-- What is held after a request: what was held, and what was granted to the new socket. -/
theorem Agrees.holds_request (h : s.Agrees) {resource : String} {granted : Grants}
    {status : String → Option ResourceRWLockStatus} {n : ℕ}
    (hg : ∀ p ∈ granted, p.1 = s.coordinator.numResourceRequests) (r : String) (lock : Lock)
    (ref : ℕ) :
    (⟨⟨status, Function.update s.coordinator.actorToLockStatusMap
        s.coordinator.numResourceRequests (some resource), n⟩,
      s.granted ∪ granted⟩ : LockSystem).Holds r lock ref ↔
      s.Holds r lock ref ∨ r = resource ∧ (ref, lock) ∈ granted := by
  unfold Holds
  by_cases href : ref = s.coordinator.numResourceRequests
  · subst href
    simp [h.next_not_granted, and_comm, eq_comm]
  · have hno : (ref, lock) ∉ granted := fun hmem => href (hg _ hmem)
    simp [href, hno]

/-- What is held after a release: what others held, and what was granted to them. -/
theorem holds_release {granted : Grants} {status : String → Option ResourceRWLockStatus} {n : ℕ}
    (gone : ℕ) (r : String) (lock : Lock) (ref : ℕ) :
    (⟨⟨status, Function.update s.coordinator.actorToLockStatusMap gone none, n⟩,
      s.granted.filter (·.1 ≠ gone) ∪ granted⟩ : LockSystem).Holds r lock ref ↔
      ref ≠ gone ∧ (s.Holds r lock ref ∨
        (ref, lock) ∈ granted ∧ s.coordinator.actorToLockStatusMap ref = some r) := by
  unfold Holds
  by_cases href : ref = gone
  · simp [href]
  · simp [href, or_and_right]

/-- A resource that a step leaves alone. -/
theorem AgreesOn.frame {t : LockSystem} {r : String} (h : s.AgreesOn r)
    (hst : t.coordinator.status r = s.coordinator.status r)
    (hh : ∀ lock ref, t.Holds r lock ref ↔ s.Holds r lock ref)
    (hmap : ∀ ref ∈ (s.coordinator.status r).readLocksWaiting,
      t.coordinator.actorToLockStatusMap ref = some r) : t.AgreesOn r where
  settled := hst ▸ h.settled
  writer ref := by rw [hh, hst, h.writer]
  reader ref := by rw [hh, hst, h.reader]
  waiting ref href := by
    rw [hst] at href
    refine ⟨hmap ref href, fun lock hmem => ?_⟩
    exact (h.waiting ref href).2 lock ((hh lock ref).mp ⟨hmem, hmap ref href⟩).1

/-- Step lemma for a request that is granted at most to its own socket: it is enough that the
    fields of the requested resource come out right. -/
theorem Agrees.request (h : s.Agrees) (resource : String) (readLock : Bool) (order : RangeOrder)
    {st : ResourceRWLockStatus} {granted : Grants}
    (hp : ((s.coordinator.status resource).wait s.coordinator.numResourceRequests
      readLock).processWaitingRequests order = (st, granted))
    (hg : ∀ p ∈ granted, p.1 = s.coordinator.numResourceRequests)
    (hsettled : Settled st)
    (hwriter : ∀ ref, (s.Holds resource .write ref ∨ (ref, .write) ∈ granted) ↔
      st.writeLockOwner = some ref)
    (hreader : ∀ ref, (s.Holds resource .read ref ∨ (ref, .read) ∈ granted) ↔
      ref ∈ st.readLockOwners)
    (hwaiting : ∀ ref ∈ st.readLocksWaiting,
      ref ∈ (s.coordinator.status resource).readLocksWaiting ∨
        ref = s.coordinator.numResourceRequests ∧ granted = ∅) :
    (s.next (.request resource readLock order)).Agrees := by
  have hmap : ∀ {r ref}, s.coordinator.actorToLockStatusMap ref = some r →
      Function.update s.coordinator.actorToLockStatusMap s.coordinator.numResourceRequests
        (some resource) ref = some r := by
    intro r ref href
    rw [Function.update_of_ne, href]
    rintro rfl
    rw [h.fresh _ (le_refl _)] at href
    cases href
  simp only [next, RWCoordinator.processResourceRequest, hp]
  refine ⟨?_, ?_, ?_⟩
  · intro ref href
    have hlt : s.coordinator.numResourceRequests < ref := href
    simpa [hlt.ne'] using h.fresh ref hlt.le
  · intro p hp
    by_cases hp1 : p.1 = s.coordinator.numResourceRequests
    · simp [hp1]
    · have hold : p ∈ s.granted := (Finset.mem_union.mp hp).resolve_right (fun hm => hp1 (hg p hm))
      simpa [hp1] using h.known p hold
  · intro r
    by_cases hr : r = resource
    · subst hr
      have hst : (⟨Function.update s.coordinator.resourceToLockStatusMap r (some st),
          Function.update s.coordinator.actorToLockStatusMap s.coordinator.numResourceRequests
            (some r), s.coordinator.numResourceRequests + 1⟩ : RWCoordinator).status r = st := by
        simp [RWCoordinator.status]
      refine ⟨by rw [hst]; exact hsettled, fun ref => ?_, fun ref => ?_, fun ref href => ?_⟩
      · rw [h.holds_request hg, hst, ← hwriter]; simp
      · rw [h.holds_request hg, hst, ← hreader]; simp
      · rw [hst] at href
        rcases hwaiting ref href with hold | ⟨rfl, rfl⟩
        · obtain ⟨hm, hno⟩ := (h.on r).waiting ref hold
          refine ⟨hmap hm, fun lock hmem => ?_⟩
          rcases Finset.mem_union.mp hmem with hmem | hmem
          · exact hno lock hmem
          · have hself := h.fresh _ (hg _ hmem).ge
            rw [hm] at hself
            cases hself
        · refine ⟨by simp, fun lock hmem => h.next_not_granted lock ?_⟩
          simpa using hmem
    · refine (h.on r).frame ?_ ?_ ?_
      · simp [RWCoordinator.status, hr]
      · intro lock ref
        rw [h.holds_request hg]
        simp [hr]
      · exact fun ref href => hmap ((h.on r).waiting ref href).1

/-- What a resource looks like after a socket is gone: the fields say who is left, and only sockets
    that waited are let in. -/
theorem AgreesOn.processed_release {resource : String} (hon : s.AgreesOn resource) (gone : ℕ)
    (order : RangeOrder) {st : ResourceRWLockStatus} {granted : Grants}
    (hp : ((s.coordinator.status resource).giveUp gone).processWaitingRequests order =
      (st, granted)) :
    Settled st ∧
      (∀ ref, st.writeLockOwner = some ref ↔ ref ≠ gone ∧ s.Holds resource .write ref) ∧
      (∀ ref, ref ∈ st.readLockOwners ↔
        ref ≠ gone ∧ (s.Holds resource .read ref ∨ (ref, .read) ∈ granted)) ∧
      (∀ ref ∈ st.readLocksWaiting, ref ≠ gone ∧ granted = ∅ ∧
        ref ∈ (s.coordinator.status resource).readLocksWaiting) ∧
      ∀ p ∈ granted, p.1 ≠ gone ∧ p.2 = .read ∧
        p.1 ∈ (s.coordinator.status resource).readLocksWaiting := by
  rw [hon.settled.release gone order] at hp
  by_cases hown : (s.coordinator.status resource).writeLockOwner = some gone
  · -- the writer is gone, and lets the readers in
    rw [if_pos hown] at hp
    cases hp
    have hne : ∀ ref ∈ (s.coordinator.status resource).readLocksWaiting, ref ≠ gone := by
      rintro _ href rfl
      exact (hon.waiting _ href).2 _ ((hon.writer _).mpr hown).1
    have hnone := hon.settled.alone (by simp [hown])
    refine ⟨⟨rfl, fun hne => absurd rfl hne, fun _ => rfl⟩, fun ref => ?_, fun ref => ?_, by simp, ?_⟩
    · simp [hon.writer, hown, eq_comm]
    · simp only [hon.reader, hnone, Finset.notMem_empty, false_or, Finset.mem_image, Prod.mk.injEq,
        and_true, exists_eq_right]
      exact ⟨fun href => ⟨hne ref href, href⟩, And.right⟩
    · rintro p hmem
      obtain ⟨ref, href, rfl⟩ := Finset.mem_image.mp hmem
      exact ⟨hne ref href, rfl, href⟩
  · rw [if_neg hown] at hp
    cases hp
    simp only [giveUp, if_neg hown]
    refine ⟨⟨?_, ?_, ?_⟩, fun ref => ?_, fun ref => ?_, ?_, by simp⟩
    · simp [hon.settled.noWriterWaits]
    · intro hne
      simp [hon.settled.alone hne]
    · intro heq
      simp [hon.settled.noReaderWaits heq]
    · rw [hon.writer]
      exact ⟨fun href => ⟨fun heq => hown (heq ▸ href), href⟩, And.right⟩
    · simp [hon.reader]
    · intro ref href
      obtain ⟨hne, href⟩ := Finset.mem_erase.mp href
      exact ⟨hne, trivial, href⟩

/-- Step lemma for a known socket that is gone. -/
theorem Agrees.release (h : s.Agrees) (gone : ℕ) (resource : String) (order : RangeOrder)
    (hgone : s.coordinator.actorToLockStatusMap gone = some resource) :
    (s.next (.release gone order)).Agrees := by
  have hon := h.on resource
  obtain ⟨st, granted, hp⟩ : ∃ st granted,
      ((s.coordinator.status resource).giveUp gone).processWaitingRequests order = (st, granted) :=
    ⟨_, _, rfl⟩
  obtain ⟨hsettled, hwriter, hreader, hwaiting, hg⟩ := hon.processed_release gone order hp
  have hgmap : ∀ p ∈ granted, s.coordinator.actorToLockStatusMap p.1 = some resource :=
    fun p hmem => (hon.waiting p.1 (hg p hmem).2.2).1
  simp only [LockSystem.next, RWCoordinator.processResourceRelease, hgone, hp]
  refine ⟨?_, ?_, ?_⟩
  · intro ref href
    by_cases heq : ref = gone
    · simp [heq]
    · simpa [heq] using h.fresh ref href
  · intro p hmem
    rcases Finset.mem_union.mp hmem with hmem | hmem
    · obtain ⟨hmem, hne⟩ := Finset.mem_filter.mp hmem
      simpa [hne] using h.known p hmem
    · simp [(hg p hmem).1, hgmap p hmem]
  · intro r
    by_cases hr : r = resource
    · subst hr
      have hst : (⟨Function.update s.coordinator.resourceToLockStatusMap r (some st),
          Function.update s.coordinator.actorToLockStatusMap gone none,
          s.coordinator.numResourceRequests⟩ : RWCoordinator).status r = st := by
        simp [RWCoordinator.status]
      refine ⟨by rw [hst]; exact hsettled, fun ref => ?_, fun ref => ?_, fun ref href => ?_⟩
      · have hno : (ref, Lock.write) ∉ granted := fun hmem => Lock.noConfusion (hg _ hmem).2.1
        rw [holds_release, hst, hwriter]
        simp [hno]
      · rw [holds_release, hst, hreader]
        refine and_congr_right fun _ => or_congr_right ⟨And.left, fun hmem => ⟨hmem, ?_⟩⟩
        exact hgmap _ hmem
      · rw [hst] at href
        obtain ⟨hne, hnone, hold⟩ := hwaiting ref href
        obtain ⟨hm, hno⟩ := hon.waiting ref hold
        exact ⟨by simp [hne, hm], by simp [hnone, hno]⟩
    · have hother : ∀ {ref}, s.coordinator.actorToLockStatusMap ref = some r → ref ≠ gone := by
        rintro ref href rfl
        exact hr (Option.some.inj (href.symm.trans hgone))
      refine (h.on r).frame ?_ ?_ ?_
      · simp [RWCoordinator.status, hr]
      · intro lock ref
        rw [holds_release]
        constructor
        · rintro ⟨-, hh | ⟨hmem, hm⟩⟩
          · exact hh
          · exact absurd (Option.some.inj (hm.symm.trans (hgmap _ hmem))) hr
        · exact fun hh => ⟨hother hh.2, .inl hh⟩
      · intro ref href
        have hm := ((h.on r).waiting ref href).1
        simp [hother hm, hm]

/-- Step lemma: requests for the read lock, requests for the write lock of a free resource, and
    sockets that are gone keep the coordinator's fields true. -/
theorem Agrees.next (h : s.Agrees) (e : LockEvent)
    (hfree : ∀ resource order, e = .request resource false order → s.Free resource) :
    (s.next e).Agrees := by
  cases e with
  | request resource readLock order =>
    have hon := h.on resource
    cases readLock with
    | false =>
      have hnone := free_iff.mp (hfree resource order rfl)
      have hreaders : (s.coordinator.status resource).readLockOwners = ∅ :=
        Finset.eq_empty_of_forall_notMem fun ref href => hnone _ _ ((hon.reader ref).mpr href)
      refine h.request resource false order (hon.settled.request_write _ order) (by simp) ?_ ?_ ?_ ?_
      · exact ⟨hon.settled.noWriterWaits, fun _ => hreaders, by simp⟩
      · intro ref
        simp [hnone, eq_comm]
      · intro ref
        simp [hnone, hreaders]
      · exact fun ref href => .inl href
    | true =>
      have hp := hon.settled.request_read s.coordinator.numResourceRequests order
      split at hp
      · rename_i hown
        refine h.request resource true order hp (by simp) ?_ ?_ ?_ ?_
        · exact ⟨hon.settled.noWriterWaits, fun hne => absurd hown hne, hon.settled.noReaderWaits⟩
        · intro ref
          simp [hon.writer]
        · intro ref
          simp [hon.reader, or_comm]
        · exact fun ref href => .inl href
      · rename_i hown
        refine h.request resource true order hp (by simp) ?_ ?_ ?_ ?_
        · exact ⟨hon.settled.noWriterWaits, hon.settled.alone, fun hn => absurd hn hown⟩
        · intro ref
          simp [hon.writer, wait]
        · intro ref
          simp [hon.reader, wait]
        · intro ref href
          rcases Finset.mem_insert.mp (by simpa [wait] using href) with rfl | href
          · exact .inr ⟨rfl, rfl⟩
          · exact .inl href
  | release gone order =>
    cases hgone : s.coordinator.actorToLockStatusMap gone with
    | none =>
      -- an unknown socket: it holds nothing
      have hkeep : s.granted.filter (·.1 ≠ gone) = s.granted :=
        Finset.filter_true_of_mem fun p hp heq => h.known p hp (heq ▸ hgone)
      simp only [LockSystem.next, RWCoordinator.processResourceRelease, hgone, hkeep,
        Finset.union_empty]
      exact h
    | some resource => exact h.release gone resource order hgone

/-- A write request that finds the resource held is granted all the same. -/
theorem Agrees.not_exclusive (h : s.Agrees) {resource : String} (order : RangeOrder)
    (hheld : ¬ s.Free resource) : ¬ (s.next (.request resource false order)).Exclusive := by
  rw [free_iff] at hheld
  push Not at hheld
  obtain ⟨lock, ref, hold⟩ := hheld
  have hp := (h.on resource).settled.request_write s.coordinator.numResourceRequests order
  have hg : ∀ p ∈ ({(s.coordinator.numResourceRequests, .write)} : Grants),
      p.1 = s.coordinator.numResourceRequests := by simp
  have hholds : ∀ lock' ref', (s.next (.request resource false order)).Holds resource lock' ref' ↔
      s.Holds resource lock' ref' ∨ (ref', lock') = (s.coordinator.numResourceRequests, .write) := by
    intro lock' ref'
    simp only [LockSystem.next, RWCoordinator.processResourceRequest, hp]
    rw [h.holds_request hg]
    simp
  have hnew := (hholds .write s.coordinator.numResourceRequests).mpr (.inr rfl)
  have hold' := (hholds lock ref).mpr (.inl hold)
  intro hex
  cases lock with
  | read => exact hex.noReader _ _ _ hnew hold'
  | write =>
    have heq := hex.oneWriter _ _ _ hnew hold'
    exact h.next_not_granted .write (heq ▸ hold.1)

end LockSystem

open LockSystem

/-- One message the coordinator receives. -/
def LockStep (s : LockSystem) (e : LockEvent) (t : LockSystem) : Prop := t = s.next e

/-- A request for the write lock finds the resource free. -/
def WriteFindsFree (x : Edge LockSystem LockEvent) : Prop :=
  match x.event with
  | .request resource false _ => x.pre.Free resource
  | _ => True

instance : DecidablePred WriteFindsFree
  | ⟨s, .request resource false _, _⟩ => inferInstanceAs (Decidable (s.Free resource))
  | ⟨_, .request _ true _, _⟩ | ⟨_, .release _ _, _⟩ => inferInstanceAs (Decidable True)

/-- CORRECT: every state of a run excludes a writer and anyone else exactly if every write request
    of the run finds its resource free. -/
theorem exclusive_iff {tr : List (Edge LockSystem LockEvent)} {t : LockSystem}
    (h : Run LockStep newLockSystem tr t) :
    (∀ x ∈ tr, x.post.Exclusive) ↔ ∀ x ∈ tr, WriteFindsFree x := by
  have hnext : ∀ s e t, s.Agrees → LockStep s e t → WriteFindsFree ⟨s, e, t⟩ → t.Agrees := by
    rintro s e t hs rfl hfree
    refine hs.next e ?_
    rintro resource order rfl
    exact hfree
  refine h.forall_iff (I := Agrees) ?_ hnext agrees_new
  intro s e t hs hst
  refine ⟨fun hex => ?_, fun hfree => (hnext s e t hs hst hfree).exclusive⟩
  cases e with
  | release => trivial
  | request resource readLock order =>
    cases readLock with
    | true => trivial
    | false =>
      by_contra hheld
      exact hs.not_exclusive order hheld (hst ▸ hex)

/-- Ranging in the order the sockets came in. -/
def oldestFirst : RangeOrder where
  first s := s.min.untopD 0
  mem s hs := by
    obtain ⟨n, hn⟩ := Finset.min_of_nonempty hs
    rw [hn]
    exact Finset.mem_of_min hn

/-- The executable form of `LockStep`. -/
def lockNext (s : LockSystem) (e : LockEvent) : Option LockSystem := some (s.next e)

theorem lockStep_of_next (s : LockSystem) (e : LockEvent) (t : LockSystem)
    (h : lockNext s e = some t) : LockStep s e t := (Option.some.inj h).symm

/-- Two readers share the resource, and the writer comes when they are gone. -/
theorem exclusive_when_free : ∃ tr t, Run LockStep newLockSystem tr t ∧
    tr.map (·.event) = [.request "resource1" true oldestFirst, .request "resource1" true oldestFirst,
      .release 0 oldestFirst, .release 1 oldestFirst, .request "resource1" false oldestFirst] ∧
    ∀ x ∈ tr, x.post.Exclusive := by
  obtain ⟨tr, t, hrun, hev, hfree⟩ := Run.exists_of_exec lockStep_of_next
    (fun r => decide (∀ x ∈ r.1, WriteFindsFree x))
    (show (exec lockNext newLockSystem [.request "resource1" true oldestFirst,
      .request "resource1" true oldestFirst, .release 0 oldestFirst, .release 1 oldestFirst,
      .request "resource1" false oldestFirst]).map _ = some true by decide)
  exact ⟨tr, t, hrun, hev, (exclusive_iff hrun).mpr (of_decide_eq_true hfree)⟩

/-- A second writer is let in while the first still holds the lock. -/
theorem two_writers_at_once : ∃ tr t, Run LockStep newLockSystem tr t ∧
    tr.map (·.event) =
      [.request "resource1" false oldestFirst, .request "resource1" false oldestFirst] ∧
    t.Holds "resource1" .write 0 ∧ t.Holds "resource1" .write 1 ∧
    ¬ ∀ x ∈ tr, x.post.Exclusive := by
  have hw : ∀ ref ∈ [0, 1], ((newLockSystem.next (.request "resource1" false oldestFirst)).next
      (.request "resource1" false oldestFirst)).Holds "resource1" .write ref := by decide
  refine ⟨_, _, .cons rfl (.cons rfl (.nil _)), rfl, hw 0 (by simp), hw 1 (by simp), ?_⟩
  intro hall
  have hex := hall _ (List.mem_cons_of_mem _ (List.mem_cons_self ..))
  exact Nat.zero_ne_one (hex.oneWriter _ _ _ (hw 0 (by simp)) (hw 1 (by simp)))

end Determined.Coordinator
