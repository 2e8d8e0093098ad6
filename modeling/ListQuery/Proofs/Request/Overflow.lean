import ListQuery.Proofs.Request.Pages
import Mathlib.Algebra.Order.Field.Rat
import Mathlib.Tactic.NormNum

/-!
# Paging with checked arithmetic

Paging computes with 64-bit integers. Here every addition, subtraction and division of it is an
operation that fails if its result does not have 64 bits, and the two functions are written down once
more over these operations, step by step. They come to the same as paging itself, so no result on the
way is too large, except for one: the page of the greatest offset, when every page has one row.

Only the offset of a page is cut on purpose. It is the exact product, or the end of the 64-bit
integers that is nearest to it.

## Main definitions

- `Operation.run`: an operation whose result must have 64 bits;
- `Request.checkedNormalize`, `Request.checkedPageInfo`: paging over these operations.

## Main statements

- `Request.isLeast_pageCount`: the number of pages is the least one that is not below the quotient;
- `Request.checkedPageInfo_eq`: the one operation that fails;
- `Request.paging_overflows_once`: what paging computes, and the one failure on the way.
-/

namespace ListQuery

/-! ## §1 Checked operations -/

inductive Operator where
  | add
  | sub
  | div
  | rem
  deriving DecidableEq

/-- An operation on two 64-bit integers. -/
structure Operation where
  operator : Operator
  left : Int64
  right : Int64
  deriving DecidableEq

namespace Operation

/-- The exact result. Divisions go toward zero, and nothing is divided by zero. -/
def result? : Operation → Option Int
  | ⟨.add, a, b⟩ => some (a.toInt + b.toInt)
  | ⟨.sub, a, b⟩ => some (a.toInt - b.toInt)
  | ⟨.div, a, b⟩ => if b = 0 then none else some (a.toInt.tdiv b.toInt)
  | ⟨.rem, a, b⟩ =>
    -- The remainder is found along with the quotient.
    if b = 0 ∨ ¬Fits64 (a.toInt.tdiv b.toInt) then none else some (a.toInt.tmod b.toInt)

/-- The result, which must have 64 bits; otherwise the operation that failed. -/
def run (op : Operation) : Except Operation Int64 :=
  match op.result? with
  | some n => if Fits64 n then .ok (Int64.ofInt n) else .error op
  | none => .error op

theorem run_of_fits {op : Operation} {n : Int} (h : op.result? = some n) (hn : Fits64 n) :
    op.run = .ok (Int64.ofInt n) := by
  unfold run
  rw [h]
  exact if_pos hn

theorem ne_zero_of_pos {n : Int64} (h : 0 < n.toInt) : n ≠ 0 := by
  rintro rfl
  exact absurd h (by decide)

theorem run_div (a : Int64) {b : Int64} (hb : 0 < b.toInt) :
    run ⟨.div, a, b⟩ = .ok (Int64.ofInt (a.toInt.tdiv b.toInt)) := by
  apply run_of_fits _ (fits64_tdiv a hb)
  exact if_neg (ne_zero_of_pos hb)

theorem run_rem (a : Int64) {b : Int64} (hb : 0 < b.toInt) :
    run ⟨.rem, a, b⟩ = .ok (Int64.ofInt (a.toInt.tmod b.toInt)) := by
  apply run_of_fits _ (fits64_tmod a hb)
  exact if_neg (not_or.2 ⟨ne_zero_of_pos hb, not_not.2 (fits64_tdiv a hb)⟩)

theorem run_add_one {n : Int} (hn : Fits64 n) (hnext : Fits64 (n + 1)) :
    run ⟨.add, Int64.ofInt n, 1⟩ = .ok (Int64.ofInt (n + 1)) := by
  apply run_of_fits _ hnext
  unfold result?
  dsimp only
  rw [toInt_ofInt64 hn]
  rfl

end Operation

/-! ## §2 Paging over checked operations -/

namespace Request

/-- The request with its offset derived from the page. The product is cut to 64 bits. -/
def checkedNormalize (r : Request) : Except Operation Request :=
  match r.offset, r.page, r.limit with
  | none, some page, some limit => do
    let page := max page 1
    let before ← (Operation.mk .sub page 1).run
    let offset := Int64.ofIntClamp (before.toInt * limit.toInt)
    return { r with page := some page, offset := some offset }
  | _, _, _ => return r

/-- The number of pages of `limit` rows for `total` rows. -/
def checkedPageCount (total limit : Int64) : Except Operation Int64 := do
  let full ← (Operation.mk .div total limit).run
  let left ← (Operation.mk .rem total limit).run
  if 0 < left then (Operation.mk .add full 1).run else return full

/-- The page the request asks for. -/
def checkedCurrentPage (r : Request) (limit : Int64) : Except Operation Int64 :=
  match r.page, r.offset with
  | some page, _ => return page
  | none, some offset => do
    let before ← (Operation.mk .div offset limit).run
    (Operation.mk .add before 1).run
  | none, none => return 1

/-- What the response to the request says about its pages. -/
def checkedPageInfo (r : Request) (total : Int64) : Except Operation (Option PageInfo) :=
  if r.isPaginated then
    let info : PageInfo := { skip := r.offset, limit := r.limit, count := some total }
    match r.limit with
    | some limit =>
      if 0 < limit then do
        let pages ← checkedPageCount total limit
        let page ← r.checkedCurrentPage limit
        return some { info with pageCount := some pages, currentPage := some page }
      else return some info
    | none => return some info
  else return none

/-! ## §3 The one failure -/

/-- The number of pages before one from the first on has 64 bits. -/
theorem run_sub_one {page : Int64} (hpage : 1 ≤ page.toInt) :
    ∃ before : Int64, before.toInt = page.toInt - 1 ∧
      (Operation.mk .sub page 1).run = .ok before := by
  have hfits : Fits64 (page.toInt - 1) := (fits64_toInt page).of_le (by omega) (by omega)
  exact ⟨Int64.ofInt (page.toInt - 1), toInt_ofInt64 hfits, Operation.run_of_fits rfl hfits⟩

theorem checkedNormalize_eq (r : Request) : r.checkedNormalize = .ok r.normalize := by
  unfold checkedNormalize
  split
  · rename_i page limit hoffset hpage hlimit
    obtain ⟨before, hbefore, hrun⟩ := run_sub_one (one_le_toInt_max page)
    rw [normalize_of_page hoffset hpage hlimit, offsetOf, ← hbefore]
    simp only [hrun, hlimit]
    rfl
  · rename_i hother
    rw [normalize_of_other hother]
    rfl

section Pages

variable {limit : Int64} (total : Int64) (hlimit : 0 < limit.toInt)
include hlimit

theorem checkedPageCount_eq : checkedPageCount total limit = .ok (pageCount total limit) := by
  have hcount : Fits64 (pagesFor total.toInt limit.toInt) := fits64_pagesFor total hlimit
  have hmore :
      0 < Int64.ofInt (total.toInt.tmod limit.toInt) ↔ 0 < total.toInt.tmod limit.toInt := by
    rw [Int64.lt_iff_toInt_lt, toInt_ofInt64 (fits64_tmod total hlimit)]
    rfl
  unfold checkedPageCount pageCount
  rw [Operation.run_div total hlimit, Operation.run_rem total hlimit]
  unfold pagesFor at hcount ⊢
  change (if 0 < Int64.ofInt (total.toInt.tmod limit.toInt) then
      (Operation.mk .add (Int64.ofInt (total.toInt.tdiv limit.toInt)) 1).run
    else .ok (Int64.ofInt (total.toInt.tdiv limit.toInt))) = _
  dsimp only at hcount ⊢
  simp only [hmore]
  split
  · rename_i hleft
    rw [if_pos hleft] at hcount
    exact Operation.run_add_one (fits64_tdiv total hlimit) hcount
  · rfl

/-- The page is told unless it is the one of the greatest offset and every page has one row. -/
theorem checkedCurrentPage_eq (r : Request) : r.checkedCurrentPage limit =
    if r.page = none ∧ limit = 1 ∧ r.offset = some Int64.maxValue then
      .error ⟨.add, Int64.maxValue, 1⟩
    else .ok (r.currentPage limit) := by
  unfold checkedCurrentPage currentPage
  cases r.page with
  | some page => rfl
  | none =>
    cases r.offset with
    | none => exact (if_neg (by simp)).symm
    | some offset =>
      dsimp only
      rw [Operation.run_div offset hlimit]
      simp only [true_and, Option.some_inj]
      split
      · rename_i h
        obtain ⟨rfl, rfl⟩ := h
        rfl
      · rename_i h
        have hpage : Fits64 (pageAt offset.toInt limit.toInt) :=
          (fits64_pageAt_iff offset hlimit).2 h
        exact Operation.run_add_one (fits64_tdiv offset hlimit) hpage

/-- The number of pages is the least one that is not below the quotient. -/
theorem isLeast_pageCount :
    IsLeast {n : ℤ | (total.toInt : ℚ) / limit.toInt ≤ n} (pageCount total limit).toInt := by
  obtain ⟨hall, hfewer⟩ := pagesFor_bounds total.toInt hlimit
  have hpos : (0 : ℚ) < limit.toInt := by exact_mod_cast hlimit
  rw [toInt_pageCount total hlimit]
  constructor
  · rw [Set.mem_ofPred_eq, div_le_iff₀ hpos]
    exact_mod_cast hall
  · intro n hn
    rw [Set.mem_ofPred_eq, div_le_iff₀ hpos] at hn
    have hrows : total.toInt ≤ n * limit.toInt := by exact_mod_cast hn
    by_contra hless
    have hle : n * limit.toInt ≤ (pagesFor total.toInt limit.toInt - 1) * limit.toInt :=
      Int.mul_le_mul_of_nonneg_right (by omega) (le_of_lt hlimit)
    omega

end Pages

/-- Telling about the pages fails at one operation only, and comes to the same otherwise. -/
theorem checkedPageInfo_eq (r : Request) (total : Int64) : r.checkedPageInfo total =
    if r.page = none ∧ r.limit = some 1 ∧ r.offset = some Int64.maxValue then
      .error ⟨.add, Int64.maxValue, 1⟩
    else .ok (r.pageInfo total) := by
  by_cases hpositive : ∃ limit ∈ r.limit, 0 < limit.toInt
  · obtain ⟨limit, hmem, hlimit⟩ := hpositive
    have hlimit' : 0 < limit := Int64.lt_iff_toInt_lt.2 hlimit
    unfold checkedPageInfo
    rw [pageInfo_of_limit hmem hlimit, if_pos (isPaginated_of_limit hmem), hmem]
    simp only [if_pos hlimit', checkedPageCount_eq total hlimit, checkedCurrentPage_eq hlimit,
      Option.some_inj]
    split <;> rfl
  · have hone : ¬r.limit = some 1 := fun h => hpositive ⟨1, h, by decide⟩
    rw [if_neg fun h => hone h.2.1]
    unfold checkedPageInfo pageInfo
    split
    · cases h : r.limit with
      | none => rfl
      | some limit =>
        have hneg : ¬0 < limit.toInt := fun hpos => hpositive ⟨limit, h, hpos⟩
        have hneg' : ¬0 < limit := fun hpos => hneg (Int64.lt_iff_toInt_lt.1 hpos)
        simp only [if_neg hneg, if_neg hneg']
        rfl
    · rfl

/-- **Paging is exact but for one failure.** The page is put right to the first one at least and the
    offset is derived from it, by the exact product cut to 64 bits, if there is a page and a limit
    but no offset; otherwise the request stays as it is. The number of pages is the least one that is
    not below the quotient. No operation on the way has a result that is too large, or divides by
    zero, unless the page is to be found from the greatest offset and every page has one row: then it
    is the addition of one, and it alone. -/
theorem paging_overflows_once (r : Request) (total : Int64) :
    (match r.offset, r.page, r.limit with
      | none, some page, some limit => ∃ first offset : Int64,
          first.toInt = max page.toInt 1 ∧
          offset.toInt = max Int64.minValue.toInt
            (min ((max page.toInt 1 - 1) * limit.toInt) Int64.maxValue.toInt) ∧
          r.normalize = { r with page := some first, offset := some offset }
      | _, _, _ => r.normalize = r) ∧
    (∀ limit ∈ r.limit, 0 < limit.toInt → ∃ info ∈ r.pageInfo total, ∃ pages ∈ info.pageCount,
      IsLeast {n : ℤ | (total.toInt : ℚ) / limit.toInt ≤ n} pages.toInt) ∧
    r.checkedNormalize = .ok r.normalize ∧
    r.checkedPageInfo total =
      if r.page = none ∧ r.limit = some 1 ∧ r.offset = some Int64.maxValue then
        .error ⟨.add, Int64.maxValue, 1⟩
      else .ok (r.pageInfo total) := by
  refine ⟨?_, ?_, checkedNormalize_eq r, checkedPageInfo_eq r total⟩
  · split
    · rename_i page limit hoffset hpage hlimit
      refine ⟨max page 1, _, toInt_max page 1, ?_, normalize_of_page hoffset hpage hlimit⟩
      rw [toInt_ofIntClamp_eq, offsetOf, toInt_max]
      rfl
    · rename_i hother
      exact normalize_of_other hother
  · intro limit hmem hlimit
    exact ⟨_, pageInfo_of_limit hmem hlimit total, _, rfl, isLeast_pageCount total hlimit⟩

/-- The page of the greatest offset is not found. A negative number of rows is no trouble. -/
theorem paging_overflows_once_greatestOffset :
    ({ limit := some 1, offset := some Int64.maxValue } : Request).checkedPageInfo 3 =
      .error ⟨.add, Int64.maxValue, 1⟩ ∧
    0 < (4 : Int64).toInt ∧
    ∃ info ∈ ({ limit := some 4 } : Request).pageInfo (-5), ∃ pages ∈ info.pageCount,
      IsLeast {n : ℤ | ((-5 : Int64).toInt : ℚ) / (4 : Int64).toInt ≤ n} pages.toInt := by
  have hpos : 0 < (4 : Int64).toInt := by decide
  obtain ⟨-, -, -, hfails⟩ :=
    paging_overflows_once { limit := some 1, offset := some Int64.maxValue } 3
  obtain ⟨-, hcount, -, -⟩ := paging_overflows_once { limit := some 4 } (-5)
  exact ⟨hfails, hpos, hcount 4 rfl hpos⟩

end Request

end ListQuery
