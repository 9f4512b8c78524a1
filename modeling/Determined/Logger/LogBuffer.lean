import Determined.Schemes.Pages

/-! The buffer of the master's own log (`pkg/logger/log_buffer.go`).

    A pointer to an entry is the entry, or none for one that was never set. -/

namespace Determined.Logger
open Determined.Schemes

structure Entry where
  id : ℤ
  message : String
  time : ℤ
  level : ℕ
  deriving DecidableEq, Repr

/-- The index of the first entry in the buffer, and how many there are. -/
def computeSlice (startID endID limit totalEntries capacity : ℤ) : ℤ × ℤ :=
  if endID < -1 ∨ startID < -1 ∨ limit < -1 then (0, 0)
  else
    let endID := if endID = -1 then totalEntries else endID
    let limit := if limit = -1 then capacity else limit
    let selectTail := startID == -1
    let startID := max startID (max 0 (totalEntries - capacity))
    let endID := min endID totalEntries
    if endID ≤ startID then (0, 0)
    else
      let limit := min limit (endID - startID)
      let startID := if selectTail then endID - limit else startID
      (startID.tmod capacity, limit)

structure LogBuffer where
  buffer : List (Option Entry)
  totalEntries : ℕ

def newLogBuffer (capacity : ℕ) : LogBuffer := ⟨List.replicate capacity none, 0⟩

def LogBuffer.write (lb : LogBuffer) (entry : Entry) : LogBuffer where
  buffer := lb.buffer.set (lb.totalEntries % lb.buffer.length)
    (some { entry with id := lb.totalEntries })
  totalEntries := lb.totalEntries + 1

/-- `Entries`: one piece is copied from the start index on, and another from the beginning. -/
def LogBuffer.entries (lb : LogBuffer) (startID endID limit : ℤ) : List (Option Entry) :=
  let (startIndex, entryCount) :=
    computeSlice startID endID limit lb.totalEntries lb.buffer.length
  if entryCount ≤ 0 then []
  else
    let count := entryCount.toNat
    let copied := (lb.buffer.drop startIndex.toNat).take count
    let rest := lb.buffer.take (count - copied.length)
    copied ++ rest ++ List.replicate (count - copied.length - rest.length) none

/-- The buffer after some entries were written. -/
def LogBuffer.writeAll (lb : LogBuffer) (ws : List Entry) : LogBuffer := ws.foldl write lb

/-- The entries as they are written: each gets the number of those before it for its id. -/
def numbered (ws : List Entry) : List Entry :=
  ws.mapIdx fun i entry => { entry with id := (i : ℕ) }

/-- What is asked for: of the entries retained those within the ids, a limited number of them,
    which are the last ones unless there is a start. -/
def requested (capacity : ℕ) (written : List Entry) (startID endID limit : ℤ) : List Entry :=
  let retained := written.drop (written.length - capacity)
  let selected := retained.filter fun entry =>
    decide (startID ≤ entry.id) && (decide (endID = -1) || decide (entry.id < endID))
  if limit = -1 then selected
  else if startID = -1 then selected.drop (selected.length - limit.toNat)
  else selected.take limit.toNat

/-! ### The buffer -/

theorem length_numbered (ws : List Entry) : (numbered ws).length = ws.length := by
  simp [numbered]

theorem numbered_snoc (ws : List Entry) (entry : Entry) :
    numbered (ws ++ [entry]) = numbered ws ++ [{ entry with id := (ws.length : ℕ) }] := by
  simp [numbered, List.mapIdx_append]

/-- Every retained entry is where its id says. -/
structure Holds (capacity : ℕ) (written : List Entry) (lb : LogBuffer) : Prop where
  length : lb.buffer.length = capacity
  total : lb.totalEntries = written.length
  cell : ∀ i, written.length - capacity ≤ i → ∀ entry, written[i]? = some entry →
    lb.buffer[i % capacity]? = some (some entry)

/-- Two retained entries are in different cells. -/
theorem mod_ne {capacity n i : ℕ} (hlow : n + 1 - capacity ≤ i) (hlt : i < n) :
    i % capacity ≠ n % capacity := by
  intro h
  obtain ⟨k, hk⟩ := (Nat.modEq_iff_dvd' hlt.le).mp h
  have hpos : 0 < k := by
    by_contra h0
    rw [Nat.eq_zero_of_not_pos h0, Nat.mul_zero] at hk
    omega
  have := Nat.le_mul_of_pos_right capacity hpos
  omega

theorem Holds.write {capacity : ℕ} (hpos : 0 < capacity) {written : List Entry} {lb : LogBuffer}
    (h : Holds capacity written lb) (entry : Entry) :
    Holds capacity (written ++ [{ entry with id := (written.length : ℕ) }]) (lb.write entry) := by
  refine ⟨by simp [LogBuffer.write, h.length], by simp [LogBuffer.write, h.total], ?_⟩
  intro i hlow e he
  rw [List.length_append, List.length_singleton] at hlow
  simp only [LogBuffer.write, h.length, h.total]
  have hcell : written.length % capacity < lb.buffer.length := by
    rw [h.length]
    exact Nat.mod_lt _ hpos
  by_cases hi : i < written.length
  · rw [List.getElem?_append_left hi] at he
    rw [List.getElem?_set_ne (mod_ne hlow hi).symm]
    exact h.cell i (by omega) e he
  · have hlen : i < written.length + 1 := by
      have := (List.getElem?_eq_some_iff.mp he).1
      simpa using this
    obtain rfl : i = written.length := by omega
    rw [List.getElem?_set_self hcell]
    simpa using he

theorem holds_writeAll {capacity : ℕ} (hpos : 0 < capacity) (ws : List Entry) :
    Holds capacity (numbered ws) ((newLogBuffer capacity).writeAll ws) := by
  induction ws using List.reverseRecOn with
  | nil => exact ⟨by simp [LogBuffer.writeAll, newLogBuffer], rfl, by simp [numbered]⟩
  | append_singleton ws entry ih =>
    have hstep := ih.write hpos entry
    rw [length_numbered] at hstep
    rw [numbered_snoc, LogBuffer.writeAll, List.foldl_append]
    exact hstep

/-! ### Reading it -/

/-- Two pieces of the buffer are one piece of it, read around the end. -/
theorem getElem?_pieces (l : List (Option Entry)) {start count : ℕ} (hstart : start ≤ l.length)
    (hcount : count ≤ l.length) (j : ℕ) (hj : j < count) :
    ((l.drop start).take count ++ l.take (count - ((l.drop start).take count).length))[j]?
      = l[(start + j) % l.length]? := by
  have hlen : ((l.drop start).take count).length = min count (l.length - start) := by simp
  by_cases hfirst : j < l.length - start
  · rw [List.getElem?_append_left (by rw [hlen]; omega), List.getElem?_take_of_lt hj,
      List.getElem?_drop, Nat.mod_eq_of_lt (by omega)]
  · rw [List.getElem?_append_right (by rw [hlen]; omega), hlen,
      List.getElem?_take_of_lt (by omega)]
    congr 1
    rw [Nat.mod_eq_sub_mod (by omega), Nat.mod_eq_of_lt (by omega)]
    omega

theorem length_pieces (l : List (Option Entry)) {start count : ℕ} (hcount : count ≤ l.length) :
    ((l.drop start).take count ++ l.take (count - ((l.drop start).take count).length)).length
      = count := by
  simp
  omega

/-- What is copied from where an id is, in a buffer that holds the entries from there on. -/
theorem Holds.pieces {capacity : ℕ} {written : List Entry} {lb : LogBuffer}
    (h : Holds capacity written lb) {i count : ℕ} (hlow : written.length - capacity ≤ i)
    (hhigh : i + count ≤ written.length) (hcount : 0 < count) :
    ((lb.buffer.drop (i % capacity)).take count
        ++ lb.buffer.take (count - ((lb.buffer.drop (i % capacity)).take count).length))
      = (between written i (i + count)).map some := by
  have hle : count ≤ lb.buffer.length := by
    rw [h.length]
    omega
  have hstart : i % capacity ≤ lb.buffer.length := by
    rw [h.length]
    exact (Nat.mod_lt _ (by rw [h.length] at hle; omega)).le
  refine List.ext_getElem? fun j => ?_
  by_cases hj : j < count
  · rw [getElem?_pieces _ hstart hle j hj, List.getElem?_map, getElem?_between, if_pos (by omega),
      h.length, Nat.mod_add_mod]
    have hget : written[i + j]? = some written[i + j] := List.getElem?_eq_getElem (by omega)
    rw [h.cell (i + j) (by omega) _ hget, hget]
    rfl
  · rw [List.getElem?_eq_none (by rw [length_pieces _ hle]; omega),
      List.getElem?_eq_none (by rw [List.length_map, length_between _ hhigh]; omega)]

/-- The ids of the entries are their positions. -/
theorem id_of_getElem? {ws : List Entry} {i : ℕ} {entry : Entry}
    (h : (numbered ws)[i]? = some entry) : entry.id = (i : ℕ) ∧ i < ws.length := by
  have hlt := (List.getElem?_eq_some_iff.mp h).1
  rw [length_numbered] at hlt
  rw [numbered, List.getElem?_mapIdx, List.getElem?_eq_getElem hlt] at h
  cases h
  exact ⟨rfl, hlt⟩

/-- The entries selected lie in a row. -/
theorem selected_eq (capacity : ℕ) (ws : List Entry) {startID endID : ℤ} {low high : ℕ}
    (hlow : (low : ℤ) = max startID (max 0 (ws.length - capacity)))
    (hhigh : (high : ℤ) = min (if endID = -1 then (ws.length : ℤ) else endID) ws.length) :
    ((numbered ws).drop (ws.length - capacity)).filter
      (fun entry => decide (startID ≤ entry.id) &&
        (decide (endID = -1) || decide (entry.id < endID))) = between (numbered ws) low high := by
  have hrange : ∀ i entry, ((numbered ws).drop (ws.length - capacity))[i]? = some entry →
      ((decide (startID ≤ entry.id) &&
        (decide (endID = -1) || decide (entry.id < endID))) = true ↔
          low - (ws.length - capacity) ≤ i ∧ i < high - (ws.length - capacity)) := by
    intro i entry hentry
    rw [List.getElem?_drop] at hentry
    obtain ⟨hid, hlt⟩ := id_of_getElem? hentry
    simp only [Bool.and_eq_true, Bool.or_eq_true, decide_eq_true_eq, hid]
    push_cast
    split at hhigh <;> omega
  rw [filter_eq_between hrange, between_drop]
  by_cases h : low ≤ high
  · congr 1 <;> omega
  · rw [between_eq_nil _ (by omega), between_eq_nil _ (by omega)]

/-- A slice in the buffer is a part of what was written. -/
theorem Holds.entries_eq {capacity : ℕ} {written : List Entry} {lb : LogBuffer}
    (h : Holds capacity written lb) {startID endID limit : ℤ} {i count : ℕ}
    (hslice : computeSlice startID endID limit written.length capacity
      = (((i % capacity : ℕ) : ℤ), (count : ℤ)))
    (hlow : written.length - capacity ≤ i) (hhigh : i + count ≤ written.length) :
    lb.entries startID endID limit = (between written i (i + count)).map some := by
  rw [LogBuffer.entries, h.total, h.length, hslice]
  by_cases hcount : count = 0
  · simp [hcount]
  · have hle : count ≤ lb.buffer.length := by
      rw [h.length]
      omega
    have hpieces := h.pieces hlow hhigh (by omega)
    have hlength := @length_pieces lb.buffer (i % capacity) count hle
    rw [List.length_append] at hlength
    simp only [show ¬ (count : ℤ) ≤ 0 by omega, if_false, Int.toNat_natCast]
    rw [hpieces, show count - ((lb.buffer.drop (i % capacity)).take count).length
      - (lb.buffer.take (count - ((lb.buffer.drop (i % capacity)).take count).length)).length = 0
      by omega]
    simp

theorem numbered_pairwise (ws : List Entry) :
    (numbered ws).Pairwise fun a b => a.id < b.id := by
  rw [List.pairwise_iff_getElem]
  intro i j hi hj hij
  rw [(id_of_getElem? (List.getElem?_eq_getElem hi)).1,
    (id_of_getElem? (List.getElem?_eq_getElem hj)).1]
  omega

/-- Nothing is asked for below the value that stands for no end or no limit. -/
theorem requested_invalid (capacity : ℕ) (ws : List Entry) (startID : ℤ) {endID limit : ℤ}
    (h : endID < -1 ∨ limit < -1) : requested capacity (numbered ws) startID endID limit = [] := by
  rcases h with h | h
  · have hselected : ((numbered ws).drop ((numbered ws).length - capacity)).filter
        (fun entry => decide (startID ≤ entry.id) &&
          (decide (endID = -1) || decide (entry.id < endID))) = [] := by
      rw [List.filter_eq_nil_iff]
      intro entry hentry
      obtain ⟨i, hi⟩ := List.mem_iff_getElem?.mp (List.mem_of_mem_drop hentry)
      have hid := (id_of_getElem? hi).1
      simp only [Bool.and_eq_true, Bool.or_eq_true, decide_eq_true_eq]
      omega
    simp [requested, hselected]
  · have hlimit : limit.toNat = 0 := by omega
    have hne : limit ≠ -1 := by omega
    simp [requested, hne, hlimit]

/-- The slice of a valid request, by the ids it is about. -/
theorem computeSlice_eq {startID endID limit : ℤ} {n capacity low high : ℕ}
    (hstart : -1 ≤ startID) (hend : -1 ≤ endID) (hlimit : -1 ≤ limit)
    (hlow : (low : ℤ) = max startID (max 0 (n - capacity)))
    (hhigh : (high : ℤ) = min (if endID = -1 then (n : ℤ) else endID) n) {count : ℕ}
    (hcount : (count : ℤ) = min (if limit = -1 then (capacity : ℤ) else limit) (high - low))
    (hlt : low < high) :
    computeSlice startID endID limit n capacity
      = ((((if startID = -1 then high - count else low) % capacity : ℕ) : ℤ), (count : ℤ)) := by
  have hinvalid : ¬ (endID < -1 ∨ startID < -1 ∨ limit < -1) := by omega
  simp only [computeSlice, hinvalid, if_false, ← hlow, ← hhigh, ← hcount]
  rw [if_neg (by omega)]
  refine Prod.ext ?_ rfl
  have hmod (i : ℕ) : ((i : ℤ)).tmod capacity = ((i % capacity : ℕ) : ℤ) := by
    rw [Int.tmod_eq_emod_of_nonneg (Int.natCast_nonneg i), Int.natCast_mod]
  have hcast : ((high - count : ℕ) : ℤ) = high - count := by omega
  by_cases htail : startID = -1
  · simp only [htail, beq_self_eq_true, if_true, ← hcast, hmod]
  · simp only [beq_eq_false_iff_ne.mpr htail, htail, if_false, Bool.false_eq_true, hmod]

/-- What is asked for in a valid request, by the ids it is about. -/
theorem requested_eq {startID endID limit : ℤ} {capacity low high : ℕ} (ws : List Entry)
    (hlimit : -1 ≤ limit) (hlow : (low : ℤ) = max startID (max 0 (ws.length - capacity)))
    (hhigh : (high : ℤ) = min (if endID = -1 then (ws.length : ℤ) else endID) ws.length)
    {count : ℕ}
    (hcount : (count : ℤ) = min (if limit = -1 then (capacity : ℤ) else limit) (high - low))
    (hlt : low < high) :
    requested capacity (numbered ws) startID endID limit
      = between (numbered ws) (if startID = -1 then high - count else low)
          ((if startID = -1 then high - count else low) + count) := by
  simp only [requested]
  rw [length_numbered, selected_eq capacity ws hlow hhigh, take_between, drop_between,
    length_between _ (by rw [length_numbered]; omega)]
  split_ifs at hcount ⊢ <;> congr 1 <;> omega

/-- CORRECT: after any writes, the entries are those asked for, in the order of their ids, unless the
    start is below the value that stands for none: then there are none. -/
theorem entries_retained {capacity : ℕ} (hpos : 0 < capacity) (ws : List Entry)
    (startID endID limit : ℤ) :
    (-1 ≤ startID → ((newLogBuffer capacity).writeAll ws).entries startID endID limit
        = (requested capacity (numbered ws) startID endID limit).map some) ∧
      (startID < -1 → ((newLogBuffer capacity).writeAll ws).entries startID endID limit = []) ∧
      (requested capacity (numbered ws) startID endID limit).Pairwise fun a b => a.id < b.id := by
  have hholds := holds_writeAll hpos ws
  refine ⟨fun hstart => ?_, fun hstart => ?_, ?_⟩
  · by_cases hinvalid : endID < -1 ∨ limit < -1
    · have hslice : ∀ n c, computeSlice startID endID limit n c = (0, 0) :=
        fun n c => if_pos (by omega)
      rw [requested_invalid capacity ws startID hinvalid]
      simp [LogBuffer.entries, hslice]
    · obtain ⟨low, hlow⟩ := Int.eq_ofNat_of_zero_le
        (show 0 ≤ max startID (max 0 ((ws.length : ℤ) - capacity)) by omega)
      obtain ⟨high, hhigh⟩ := Int.eq_ofNat_of_zero_le
        (show 0 ≤ min (if endID = -1 then (ws.length : ℤ) else endID) ws.length by split <;> omega)
      by_cases hlt : low < high
      · obtain ⟨count, hcount⟩ := Int.eq_ofNat_of_zero_le
          (show 0 ≤ min (if limit = -1 then (capacity : ℤ) else limit) (high - low) by
            split <;> omega)
        rw [requested_eq ws (by omega) hlow.symm hhigh.symm hcount.symm hlt]
        have hslice := computeSlice_eq hstart (by omega) (by omega) hlow.symm hhigh.symm
          hcount.symm hlt
        refine hholds.entries_eq (by rw [length_numbered]; exact hslice) ?_ ?_ <;>
          rw [length_numbered] <;> split_ifs at hcount hhigh ⊢ <;> omega
      · have hslice : computeSlice startID endID limit ws.length capacity = (0, 0) := by
          have hvalid : ¬ (endID < -1 ∨ startID < -1 ∨ limit < -1) := by omega
          simp only [computeSlice, hvalid, if_false, hlow, hhigh]
          exact if_pos (by omega)
        have hselected := selected_eq capacity ws hlow.symm hhigh.symm
        rw [between_eq_nil _ (by omega)] at hselected
        simp only [requested, length_numbered, hselected]
        simp [LogBuffer.entries, hholds.total, hholds.length, length_numbered, hslice]
  · simp [LogBuffer.entries, computeSlice, hstart]
  · refine (numbered_pairwise ws).sublist ?_
    simp only [requested]
    have hsub := List.filter_sublist (p := fun entry : Entry => decide (startID ≤ entry.id) &&
      (decide (endID = -1) || decide (entry.id < endID)))
      (l := (numbered ws).drop ((numbered ws).length - capacity))
    split_ifs
    · exact hsub.trans (List.drop_sublist _ _)
    · exact (List.drop_sublist _ _).trans (hsub.trans (List.drop_sublist _ _))
    · exact (List.take_sublist _ _).trans (hsub.trans (List.drop_sublist _ _))

/-- Five entries in a buffer of three, and the last two of those before the last. -/
theorem entries_retained_wrapped :
    ((newLogBuffer 3).writeAll (List.replicate 5 ⟨0, "m", 0, 4⟩)).entries (-1) 4 2
      = [some ⟨2, "m", 0, 4⟩, some ⟨3, "m", 0, 4⟩] :=
  ((entries_retained (by decide) (List.replicate 5 ⟨0, "m", 0, 4⟩) (-1) 4 2).1 (by decide)).trans
    (by decide +kernel)

/-- A start below that value is no bound on any entry, and yet there are none. -/
theorem start_below_none :
    ((newLogBuffer 3).writeAll [⟨0, "m", 0, 4⟩]).entries (-2) (-1) (-1) = [] ∧
      requested 3 (numbered [⟨0, "m", 0, 4⟩]) (-2) (-1) (-1) = [⟨0, "m", 0, 4⟩] := by
  decide +kernel

end Determined.Logger
