import Determined.Schemes.Pages

/-! Offsets, limits and pages of requests (`internal/api/params.go`, `paginate` of
    `internal/api.go`).

    A request carries its offset and its limit as 32-bit integers, so that no sum of two of them and a
    total leaves the 64 bits it is computed in; they are integers here. The total that `paginate`
    works with is the number of values taken down to 32 bits. -/

namespace Determined.Api
open Determined.Schemes

/-- The indices of a page, from the first one in it up to the first one after it. -/
structure Pagination where
  startIndex : ℤ
  endIndex : ℤ
  deriving DecidableEq, Repr

/-- `Paginate`: a negative offset counts from the end, and a limit of zero is none. -/
def paginate (total offset limit : ℤ) : Except String Pagination :=
  let startIndex := if offset < 0 then total + offset else offset
  let endIndex := startIndex + limit
  let endIndex := if limit = 0 ∨ total < endIndex then total else endIndex
  if ¬ (0 ≤ startIndex ∧ startIndex ≤ total) then .error "offset out of bounds"
  else .ok ⟨startIndex, endIndex⟩

def effectiveOffset (reqOffset total : ℤ) : ℤ :=
  if reqOffset < -total then 0
  else if reqOffset < 0 then max (total + reqOffset) 0
  else reqOffset

/-- `EffectiveLimit`, which panics on a negative offset. -/
def effectiveLimit (limit offset total : ℤ) : Option ℤ :=
  if offset < 0 then none
  else if limit < 0 then some (-1)
  else if total - offset < limit ∨ limit = 0 then some (total - offset)
  else some limit

def effectiveOffsetNLimit (reqOffset reqLimit totalItems : ℤ) : Option (ℤ × ℤ) :=
  let offset := effectiveOffset reqOffset totalItems
  (effectiveLimit reqLimit offset totalItems).map fun limit => (offset, limit)

/-- What a request for logs asks for. -/
structure LogsRequest where
  offset : ℤ
  limit : ℤ
  follow : Bool
  deriving DecidableEq, Repr

/-- An effective offset is one from the start. -/
theorem effectiveOffset_nonneg (reqOffset total : ℤ) : 0 ≤ effectiveOffset reqOffset total := by
  simp only [effectiveOffset]
  split_ifs <;> omega

/-- A negative offset goes back from the end, but not beyond the start. -/
theorem effectiveOffset_neg {reqOffset total : ℤ} (h : reqOffset < 0) :
    effectiveOffset reqOffset total = max (total + reqOffset) 0 := by
  simp only [effectiveOffset]
  split_ifs <;> omega

/-! ### Pages of values -/

/-- The low 32 bits of a length, as a signed integer. -/
def int32 (n : ℕ) : ℤ := Int.bmod n (2 ^ 32)

theorem int32_of_lt {n : ℕ} (h : n < 2 ^ 31) : int32 n = n :=
  Int.bmod_eq_of_le (by omega) (by omega)

theorem int32_lt (n : ℕ) : int32 n < 2 ^ 31 := Int.bmod_lt (by decide)

theorem int32_le (n : ℕ) : int32 n ≤ n := by
  by_cases h : n < 2 ^ 31
  · exact (int32_of_lt h).le
  · have := int32_lt n
    omega

/-- What a response says about its page. -/
structure PaginationResponse where
  offset : ℤ
  limit : ℤ
  startIndex : ℤ
  endIndex : ℤ
  total : ℤ
  deriving DecidableEq, Repr

inductive Fault where
  | invalidArgument (message : String)
  | panic
  deriving DecidableEq, Repr

variable {α : Type*}

/-- Slicing, which panics unless the indices are in order and within the slice. -/
def slice (values : List α) (i j : ℤ) : Except Fault (List α) :=
  if 0 ≤ i ∧ i ≤ j ∧ j ≤ values.length then .ok (between values i.toNat j.toNat)
  else .error .panic

/-- `paginate` of the API server: a page of the values, and what the response says about it. -/
def ApiServer.paginate (values : List α) (offset limit : ℤ) :
    Except Fault (PaginationResponse × List α) :=
  let total := int32 values.length
  match Api.paginate total offset limit with
  | .error message => .error (.invalidArgument message)
  | .ok pagination => do
    let page ← slice values pagination.startIndex pagination.endIndex
    return (⟨offset, limit, pagination.startIndex, pagination.endIndex, total⟩, page)

/-- An error, or indices in order and within the total. -/
def InRange (total : ℤ) : Except String Pagination → Prop
  | .error _ => True
  | .ok p => 0 ≤ p.startIndex ∧ p.startIndex ≤ p.endIndex ∧ p.endIndex ≤ total

/-- The pages of a client that advances its offset by what it got until it gets nothing. -/
inductive Walk (values : List α) (limit : ℤ) : ℤ → List (List α) → Prop
  | last {offset : ℤ} {p : PaginationResponse} :
      ApiServer.paginate values offset limit = .ok (p, []) → Walk values limit offset []
  | page {offset : ℤ} {p : PaginationResponse} {page : List α} {pages : List (List α)} :
      ApiServer.paginate values offset limit = .ok (p, page) → page ≠ [] →
      Walk values limit (offset + page.length) pages → Walk values limit offset (page :: pages)

/-- The offset lies between the values, counted from the start or from the end. -/
def OffsetInBounds (total offset : ℤ) : Prop := -total ≤ offset ∧ offset ≤ total

/-- The indices are in range unless the limit is negative and the offset is in bounds. -/
theorem paginate_inRange_iff (total offset limit : ℤ) :
    InRange total (paginate total offset limit) ↔ 0 ≤ limit ∨ ¬ OffsetInBounds total offset := by
  simp only [paginate, OffsetInBounds]
  split_ifs <;> simp only [InRange, true_iff] <;> omega

theorem slice_eq_ok {values : List α} {i j : ℤ} {page : List α} (h : slice values i j = .ok page) :
    (0 ≤ i ∧ i ≤ j ∧ j ≤ values.length) ∧ page = between values i.toNat j.toNat := by
  simp only [slice] at h
  split at h
  · next hrange => exact ⟨hrange, (Except.ok.inj h).symm⟩
  · cases h

theorem paginate_of_not {total offset : ℤ} (h : ¬ OffsetInBounds total offset) (limit : ℤ) :
    paginate total offset limit = .error "offset out of bounds" := by
  simp only [paginate, OffsetInBounds] at h ⊢
  refine if_pos ?_
  split_ifs <;> omega

theorem paginate_of_nonneg {total offset : ℤ} (h : 0 ≤ offset) (hle : offset ≤ total) (limit : ℤ) :
    paginate total offset limit
      = .ok ⟨offset, if limit = 0 ∨ total < offset + limit then total else offset + limit⟩ := by
  have hstart : ¬ offset < 0 := by omega
  simp only [paginate, hstart, if_false]
  exact if_neg (not_not_intro ⟨h, hle⟩)

/-- A page never reaches beyond the total. -/
theorem endIndex_le {total offset limit : ℤ} {p : Pagination}
    (h : paginate total offset limit = .ok p) : p.endIndex ≤ total := by
  simp only [paginate] at h
  split_ifs at h <;> cases h <;> simp only [] <;> omega

/-- The slicing panics exactly where the indices are out of range. -/
theorem ApiServer.paginate_ne_panic_iff (values : List α) (offset limit : ℤ) :
    ApiServer.paginate values offset limit ≠ .error .panic ↔
      0 ≤ limit ∨ ¬ OffsetInBounds (int32 values.length) offset := by
  have hle := int32_le values.length
  rw [← paginate_inRange_iff, ApiServer.paginate]
  cases hpage : Api.paginate (int32 values.length) offset limit with
  | error message => simp [InRange]
  | ok p =>
    have hend := endIndex_le hpage
    rw [InRange]
    by_cases hrange : 0 ≤ p.startIndex ∧ p.startIndex ≤ p.endIndex
    · have hslice : 0 ≤ p.startIndex ∧ p.startIndex ≤ p.endIndex ∧ p.endIndex ≤ values.length :=
        ⟨hrange.1, hrange.2, hend.trans hle⟩
      simp [slice, hslice, hend, bind, Except.bind, pure, Except.pure]
    · have hslice : ¬ (0 ≤ p.startIndex ∧ p.startIndex ≤ p.endIndex ∧
          p.endIndex ≤ values.length) := fun h => hrange ⟨h.1, h.2.1⟩
      have hpanic : slice values p.startIndex p.endIndex = .error .panic := if_neg hslice
      simp only [hpanic, bind, Except.bind, ne_eq, not_true_eq_false, false_iff]
      exact fun h => hrange ⟨h.1, h.2.1⟩

/-! ### The walk -/

/-- From an offset that is not past the end, the page reaches to the limit or the end. -/
theorem ApiServer.paginate_of_le {values : List α} {limit : ℤ} (hlimit : 0 ≤ limit) {i : ℕ}
    (hi : (i : ℤ) ≤ int32 values.length) :
    ∃ j : ℕ, ApiServer.paginate values i limit
        = .ok (⟨i, limit, i, j, int32 values.length⟩, between values i j) ∧ i ≤ j ∧
      (j : ℤ) ≤ int32 values.length ∧ (i = j → (i : ℤ) = int32 values.length) := by
  have hle := int32_le values.length
  have hpage := paginate_of_nonneg (Int.natCast_nonneg i) hi limit
  have hj : ∃ j : ℕ, (if limit = 0 ∨ int32 values.length < i + limit then int32 values.length
      else i + limit) = (j : ℤ) := by
    refine ⟨(if limit = 0 ∨ int32 values.length < i + limit then int32 values.length
      else i + limit).toNat, ?_⟩
    rw [Int.toNat_of_nonneg]
    split <;> omega
  obtain ⟨j, hj⟩ := hj
  have hbounds : i ≤ j ∧ (j : ℤ) ≤ int32 values.length ∧
      (i = j → (i : ℤ) = int32 values.length) := by
    split at hj <;> omega
  refine ⟨j, ?_, hbounds⟩
  rw [ApiServer.paginate, hpage]
  simp only [hj]
  have hslice : slice values (i : ℤ) (j : ℤ) = .ok (between values i j) :=
    if_pos ⟨by omega, by omega, by omega⟩
  rw [hslice]
  rfl

/-- A page starts at the offset, which is not past the end. -/
theorem ApiServer.le_of_paginate_ok {values : List α} {limit : ℤ} {i : ℕ}
    {p : PaginationResponse} {page : List α}
    (h : ApiServer.paginate values i limit = .ok (p, page)) : (i : ℤ) ≤ int32 values.length := by
  by_contra hout
  have hbounds : ¬ OffsetInBounds (int32 values.length) i := fun h => hout h.2
  rw [ApiServer.paginate, paginate_of_not hbounds] at h
  cases h

/-- A walk that ends has read the values up to the end. -/
theorem Walk.reads {values : List α} {limit : ℤ} (hlimit : 0 ≤ limit) {offset : ℤ}
    {pages : List (List α)} (h : Walk values limit offset pages) :
    ∀ i : ℕ, offset = i → ∃ k : ℕ, Reads values i pages k ∧ (k : ℤ) = int32 values.length := by
  have hle := int32_le values.length
  induction h with
  | last hpage =>
    rintro i rfl
    obtain ⟨j, hj, hij, hjt, hlast⟩ :=
      ApiServer.paginate_of_le hlimit (ApiServer.le_of_paginate_ok hpage)
    rw [hpage] at hj
    have hempty : (between values i j).length = 0 := by
      rw [← (Prod.mk.inj (Except.ok.inj hj)).2, List.length_nil]
    rw [length_between values (by omega)] at hempty
    exact ⟨i, .nil i, hlast (by omega)⟩
  | page hpage _ _ ih =>
    rintro i rfl
    obtain ⟨j, hj, hij, hjt, hlast⟩ :=
      ApiServer.paginate_of_le hlimit (ApiServer.le_of_paginate_ok hpage)
    rw [hpage] at hj
    obtain rfl := (Prod.mk.inj (Except.ok.inj hj)).2
    obtain ⟨k, hreads, hk⟩ := ih j (by rw [length_between values (by omega)]; omega)
    exact ⟨k, .cons hij (by omega) hreads, hk⟩

/-- Every walk with a limit or none ends. -/
theorem Walk.exists {values : List α} {limit : ℤ} (hlimit : 0 ≤ limit) {i : ℕ}
    (hi : (i : ℤ) ≤ int32 values.length) : ∃ pages, Walk values limit i pages := by
  have hle := int32_le values.length
  obtain ⟨j, hj, hij, hjt, hlast⟩ := ApiServer.paginate_of_le hlimit hi
  by_cases h : i = j
  · rw [h, between_self] at hj
    rw [h]
    exact ⟨[], .last hj⟩
  · obtain ⟨pages, hpages⟩ := Walk.exists hlimit hjt
    have hlength := length_between values (i := i) (j := j) (by omega)
    refine ⟨between values i j :: pages, .page hj ?_ ?_⟩
    · intro hnil
      rw [hnil, List.length_nil] at hlength
      omega
    · rw [hlength]
      convert hpages using 1
      omega
termination_by values.length - i
decreasing_by omega

/-- A client that starts at zero and advances by what it gets comes to every value once. -/
def Visits (values : List α) (limit : ℤ) : Prop :=
  ∃ pages, Walk values limit 0 pages ∧ pages.flatten = values

theorem visits_of_nonneg {values : List α} {limit : ℤ} (hlimit : 0 ≤ limit)
    (hlength : values.length < 2 ^ 31) : Visits values limit := by
  have htotal := int32_of_lt hlength
  obtain ⟨pages, hpages⟩ := @Walk.exists _ values _ hlimit 0 (by omega)
  obtain ⟨k, hreads, hk⟩ := hpages.reads hlimit 0 rfl
  refine ⟨pages, hpages, ?_⟩
  obtain rfl : k = values.length := by omega
  rw [hreads.flatten.2, between_length, List.drop_zero]

theorem nonneg_of_walk {values : List α} {limit : ℤ} {pages : List (List α)}
    (h : Walk values limit 0 pages) : 0 ≤ limit := by
  have hpage : ∃ p page, ApiServer.paginate values 0 limit = .ok (p, page) := by
    cases h with
    | last hpage => exact ⟨_, _, hpage⟩
    | page hpage _ _ => exact ⟨_, _, hpage⟩
  obtain ⟨p, page, hpage⟩ := hpage
  have hpos : (0 : ℤ) ≤ int32 values.length := by
    simpa using ApiServer.le_of_paginate_ok (i := 0) hpage
  have hsafe := (ApiServer.paginate_ne_panic_iff values 0 limit).mp (by rw [hpage]; simp)
  exact hsafe.resolve_right fun h => h ⟨by omega, hpos⟩

theorem lt_of_visits {values : List α} {limit : ℤ} (h : Visits values limit) :
    values.length < 2 ^ 31 := by
  obtain ⟨pages, hpages, hall⟩ := h
  obtain ⟨k, hreads, hk⟩ := hpages.reads (nonneg_of_walk hpages) 0 rfl
  have hlt := int32_lt values.length
  have hlength : values.length ≤ k := by
    rw [← hall, hreads.flatten.2]
    exact (List.length_take_le _ _).trans (by omega)
  omega

/-- CORRECT: the indices are in range, and the slicing does not panic, exactly when the limit is not
    negative or the offset is out of bounds; and a walk over the pages visits every value once
    exactly when the limit is not negative and 32 bits hold the number of values. -/
theorem pagination_iff (total : ℕ) (values : List α) (offset limit : ℤ) :
    (InRange total (paginate total offset limit) ↔
        0 ≤ limit ∨ ¬ OffsetInBounds total offset) ∧
      (ApiServer.paginate values offset limit ≠ .error .panic ↔
        0 ≤ limit ∨ ¬ OffsetInBounds (int32 values.length) offset) ∧
      (Visits values limit ↔ 0 ≤ limit ∧ values.length < 2 ^ 31) := by
  refine ⟨paginate_inRange_iff total offset limit, ApiServer.paginate_ne_panic_iff values offset limit,
    fun h => ?_, fun h => visits_of_nonneg h.1 h.2⟩
  obtain ⟨pages, hpages, hall⟩ := h
  exact ⟨nonneg_of_walk hpages, lt_of_visits ⟨pages, hpages, hall⟩⟩

/-- Ten values, from the fifth on, and a limit of minus three. -/
theorem negative_limit_panics :
    paginate 10 5 (-3) = .ok ⟨5, 2⟩ ∧ ¬ InRange 10 (paginate 10 5 (-3)) ∧
      ApiServer.paginate (List.range 10) 5 (-3) = .error .panic := by
  have hpage : paginate 10 5 (-3) = .ok ⟨5, 2⟩ := by decide
  refine ⟨hpage, ?_, rfl⟩
  rw [hpage, InRange]
  decide

end Determined.Api
