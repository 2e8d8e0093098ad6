import ListQuery.Proofs.Request.PageNumbers
import ListQuery.Proofs.Request.Plan

/-!
# Pages and the rows on them

The pages of a list partition its rows: they hold all of them, none twice, and no page is empty. From
the offset at which a page begins, the page is found again.

What a plan tells about the pages agrees with this, but for the page itself: a page before the first
one is put right only where the offset is derived from it. Beside an offset of its own it is told as
it stands, and so is the page of a negative offset.

## Main statements

- `Request.pageInfo_of_limit`: what is told about the pages when there is a positive limit;
- `Request.normalize_of_page`: the offset that is derived from a page;
- `Request.pages_partition_rows`: every row is on one page, and no page is without rows;
- `Request.one_le_currentPage_iff`: when the page that is told is one;
- `Plan.respond_tells`: the numbers that a plan tells.
-/

namespace ListQuery

/-! ## §1 What is told about the pages -/

namespace Request

variable {r : Request} {limit : Int64}

/-- The number of pages of a list, for a positive limit. -/
def pageCount (total limit : Int64) : Int64 :=
  Int64.ofInt (pagesFor total.toInt limit.toInt)

theorem toInt_pageCount (total : Int64) (hlimit : 0 < limit.toInt) :
    (pageCount total limit).toInt = pagesFor total.toInt limit.toInt :=
  toInt_ofInt64 (fits64_pagesFor total hlimit)

theorem isPaginated_of_limit (h : r.limit = some limit) : r.isPaginated = true := by
  unfold isPaginated
  rw [h]
  rfl

/-- What is told about the pages when there is a positive limit. -/
theorem pageInfo_of_limit (h : r.limit = some limit) (hlimit : 0 < limit.toInt) (total : Int64) :
    r.pageInfo total = some {
      skip := r.offset
      limit := some limit
      count := some total
      pageCount := some (pageCount total limit)
      currentPage := some (r.currentPage limit) } := by
  unfold pageInfo
  rw [if_pos (isPaginated_of_limit h)]
  simp only [h, if_pos hlimit]
  rfl

/-- Without a positive limit nothing is told about pages. -/
theorem pageInfo_of_no_limit (h : ∀ limit ∈ r.limit, ¬0 < limit.toInt) (total : Int64) :
    ∀ info ∈ r.pageInfo total,
      info = { skip := r.offset, limit := r.limit, count := some total } := by
  intro info hinfo
  unfold pageInfo at hinfo
  split at hinfo
  · split at hinfo
    · rename_i limit hlimit
      rw [if_neg (h limit hlimit)] at hinfo
      obtain ⟨⟩ := hinfo
      rfl
    · obtain ⟨⟩ := hinfo
      rfl
  · cases hinfo

/-! ## §2 Requests in normal form -/

theorem one_le_toInt_max (page : Int64) : 1 ≤ (max page 1).toInt := by
  rw [toInt_max]
  exact le_max_right page.toInt 1

theorem ite_toInt_lt_one (page : Int64) : (if page.toInt < 1 then 1 else page) = max page 1 := by
  apply Int64.toInt_inj.1
  have hone : (1 : Int64).toInt = 1 := by decide
  rw [toInt_max, hone, apply_ite Int64.toInt, hone]
  omega

/-- With a page and a limit but no offset, the offset is derived from the first page or a later one. -/
theorem normalize_of_page {r : Request} {page limit : Int64} (hoffset : r.offset = none)
    (hpage : r.page = some page) (hlimit : r.limit = some limit) :
    r.normalize = { r with
      page := some (max page 1)
      offset := some (Int64.ofIntClamp (offsetOf (max page 1).toInt limit.toInt)) } := by
  unfold normalize derivedOffset?
  simp only [hoffset, hpage, hlimit, ite_toInt_lt_one]

theorem normalize_of_other {r : Request}
    (h : ∀ page limit, r.offset = none → r.page = some page → r.limit = some limit → False) :
    r.normalize = r := by
  unfold normalize derivedOffset?
  split
  · rename_i d hd
    split at hd
    · rename_i hoffset hpage hlimit
      exact (h _ _ hoffset hpage hlimit).elim
    · cases hd
  · rfl

/-! ## §3 Pages asked for -/

/-- The request for a page, with the offset that follows. -/
def atPage (r : Request) (page : Int64) : Request :=
  ({ r with page := some page } : Request).normalize

/-- Whether a request asks for a row: the row lies in the range of its offset and limit. -/
def Wants (r : Request) (row : Int) : Prop :=
  ∃ offset ∈ r.offset, ∃ limit ∈ r.limit, offset.toInt ≤ row ∧ row < offset.toInt + limit.toInt

/-- The request for a page from the first one on has the offset at which the page begins, cut to 64
    bits. -/
theorem atPage_eq (hoffset : r.offset = none) (hlimit : r.limit = some limit) {page : Int64}
    (hpage : 1 ≤ page.toInt) : r.atPage page = { r with
      page := some page
      offset := some (Int64.ofIntClamp (offsetOf page.toInt limit.toInt)) } := by
  have hfirst : max page 1 = page := by
    apply Int64.toInt_inj.1
    rw [toInt_max]
    exact max_eq_left hpage
  have hnormal := normalize_of_page (r := { r with page := some page }) hoffset rfl hlimit
  rwa [hfirst] at hnormal

section Pages

variable {total page : Int64}

/-- The first row of a page that there is has a number of 64 bits. -/
theorem toInt_offset (hlimit : 0 < limit.toInt) (hpage : 1 ≤ page.toInt)
    (hlast : page.toInt ≤ pagesFor total.toInt limit.toInt) :
    (Int64.ofIntClamp (offsetOf page.toInt limit.toInt)).toInt =
      offsetOf page.toInt limit.toInt :=
  toInt_ofIntClamp
    ((fits64_toInt total).of_le (offsetOf_nonneg hpage hlimit) (le_of_lt (offsetOf_lt hlimit hlast)))

/-- The request for a page that there is asks for the rows on this page. -/
theorem wants_atPage_iff (hoffset : r.offset = none) (h : r.limit = some limit)
    (hlimit : 0 < limit.toInt) (hpage : 1 ≤ page.toInt)
    (hlast : page.toInt ≤ pagesFor total.toInt limit.toInt) (row : Int) :
    (r.atPage page).Wants row ↔ OnPage page.toInt limit.toInt row := by
  unfold Wants OnPage
  rw [atPage_eq hoffset h hpage, h]
  simp only [Option.mem_some_iff, exists_eq_left', toInt_offset hlimit hpage hlast]

/-- A page that there is is found again from its offset. -/
theorem currentPage_of_offset {offset : Int64} (hpage : 1 ≤ page.toInt) (hlimit : 0 < limit.toInt)
    (hnone : r.page = none) (hoffset : r.offset = some offset)
    (heq : offset.toInt = offsetOf page.toInt limit.toInt) : r.currentPage limit = page := by
  have hfirst : OnPage page.toInt limit.toInt offset.toInt := heq ▸ onPage_offsetOf page.toInt hlimit
  have hnonneg : 0 ≤ offset.toInt := heq ▸ offsetOf_nonneg hpage hlimit
  unfold currentPage
  rw [hnone, hoffset]
  dsimp only
  rw [← (onPage_iff hlimit hnonneg).1 hfirst, Int64.ofInt_toInt]

/-- The page of a row has a number of 64 bits. -/
theorem exists_pageAt (hlimit : 0 < limit.toInt) {row : Int} (hrow : 0 ≤ row)
    (hcount : row < total.toInt) :
    ∃ page : Int64, page.toInt = pageAt row limit.toInt ∧ 1 ≤ page.toInt ∧
      page.toInt ≤ pagesFor total.toInt limit.toInt := by
  obtain ⟨hfirst, hlast⟩ := pageAt_bounds hlimit hrow hcount
  have hpage : (Int64.ofInt (pageAt row limit.toInt)).toInt = pageAt row limit.toInt :=
    toInt_ofInt64 ((fits64_pagesFor total hlimit).of_le (by omega) hlast)
  exact ⟨Int64.ofInt (pageAt row limit.toInt), hpage, hpage.symm ▸ hfirst, hpage.symm ▸ hlast⟩

end Pages

/-- **Pages partition the rows.** A list of `total` rows has a number of pages, which is told for
    every request with this limit. The request for one of these pages has the offset at which the
    page begins, without being cut, and asks for at least one of the rows; and from this offset
    without the page, the page is told again. Every row is asked for by the request for exactly one
    of these pages. -/
theorem pages_partition_rows (total : Int64) {limit : Int64} (hlimit : 1 ≤ limit.toInt) :
    ∃ pages : Int64,
      (∀ r : Request, r.limit = some limit →
        ∃ info, r.pageInfo total = some info ∧ info.pageCount = some pages) ∧
      ∀ r : Request, r.limit = some limit → r.offset = none →
        (∀ page : Int64, 1 ≤ page.toInt → page.toInt ≤ pages.toInt →
          (∃ offset : Int64, offset.toInt = (page.toInt - 1) * limit.toInt ∧
            r.atPage page = { r with page := some page, offset := some offset }) ∧
          (∃ row, 0 ≤ row ∧ row < total.toInt ∧ (r.atPage page).Wants row) ∧
          ∀ count : Int64, ∃ info,
            ({ r.atPage page with page := none } : Request).pageInfo count = some info ∧
            info.currentPage = some page) ∧
        ∀ row, 0 ≤ row → row < total.toInt →
          ∃! page : Int64, 1 ≤ page.toInt ∧ page.toInt ≤ pages.toInt ∧ (r.atPage page).Wants row := by
  refine ⟨pageCount total limit, fun r hr => ⟨_, pageInfo_of_limit hr hlimit total, rfl⟩, ?_⟩
  intro r hr hoffset
  rw [toInt_pageCount total hlimit]
  constructor
  · intro page hpage hlast
    refine ⟨⟨_, toInt_offset hlimit hpage hlast, atPage_eq hoffset hr hpage⟩, ?_, fun count => ?_⟩
    · -- The row with which the page begins is one.
      refine ⟨_, offsetOf_nonneg hpage hlimit, offsetOf_lt hlimit hlast, ?_⟩
      rw [wants_atPage_iff hoffset hr hlimit hpage hlast]
      exact onPage_offsetOf page.toInt hlimit
    · rw [atPage_eq hoffset hr hpage]
      refine ⟨_, pageInfo_of_limit ?_ hlimit count, congrArg some ?_⟩
      · exact hr
      · exact currentPage_of_offset hpage hlimit rfl rfl (toInt_offset hlimit hpage hlast)
  · intro row hrow hcount
    obtain ⟨page, heq, hpage, hlast⟩ := exists_pageAt hlimit hrow hcount
    refine ⟨page, ⟨hpage, hlast, ?_⟩, ?_⟩
    · rw [wants_atPage_iff hoffset hr hlimit hpage hlast, onPage_iff hlimit hrow, heq]
    · rintro page' ⟨hpage', hlast', hwants⟩
      rw [wants_atPage_iff hoffset hr hlimit hpage' hlast', onPage_iff hlimit hrow, ← heq] at hwants
      exact Int64.toInt_inj.1 hwants

/-- The last row of the longest list, with pages that have one row less than the list. -/
theorem pages_partition_rows_longestList :
    1 ≤ (Int64.maxValue - 1).toInt ∧ ∃ pages : Int64,
      (∃ info, ({ limit := some (Int64.maxValue - 1) } : Request).pageInfo Int64.maxValue =
        some info ∧ info.pageCount = some pages) ∧
      ∃! page : Int64, 1 ≤ page.toInt ∧ page.toInt ≤ pages.toInt ∧
        (({ limit := some (Int64.maxValue - 1) } : Request).atPage page).Wants (2 ^ 63 - 2) := by
  have hlimit : 1 ≤ (Int64.maxValue - 1).toInt := by decide
  obtain ⟨pages, htold, hpages⟩ := pages_partition_rows Int64.maxValue hlimit
  exact ⟨hlimit, pages, htold _ rfl, (hpages _ rfl rfl).2 _ (by decide) (by decide)⟩

/-! ## §4 The page that is told -/

/-- The page that is told for a request in normal form. -/
theorem currentPage_normalize (h : r.limit = some limit) : r.normalize.currentPage limit =
    match r.offset, r.page with
    | none, none => 1
    | none, some page => max page 1
    | some offset, none => Int64.ofInt (pageAt offset.toInt limit.toInt)
    | some _, some page => page := by
  obtain ⟨filter, order, select, nested, limit?, offset, page⟩ := r
  obtain rfl : limit? = some limit := h
  cases offset with
  | none =>
    cases page with
    | none => rfl
    | some page => exact ite_toInt_lt_one page
  | some offset => cases page <;> rfl

/-- Whether the page told for a request in normal form is one. A page that is given beside an offset
    is told as it stands, and an offset that is a page or more below zero is on no page. The page of
    the greatest offset has no number if every page has one row. -/
def TellsPage (r : Request) (limit : Int64) : Prop :=
  match r.offset, r.page with
  | none, _ => True
  | some offset, none => -limit.toInt < offset.toInt ∧ ¬(limit = 1 ∧ offset = Int64.maxValue)
  | some _, some page => 1 ≤ page.toInt

theorem one_le_toInt_pageAt_iff (offset : Int64) (hlimit : 0 < limit.toInt) :
    1 ≤ (Int64.ofInt (pageAt offset.toInt limit.toInt)).toInt ↔
      -limit.toInt < offset.toInt ∧ ¬(limit = 1 ∧ offset = Int64.maxValue) := by
  rw [← fits64_pageAt_iff offset hlimit, ← one_le_pageAt_iff offset.toInt hlimit]
  by_cases hfits : Fits64 (pageAt offset.toInt limit.toInt)
  · rw [toInt_ofInt64 hfits, and_iff_left hfits]
  · -- The page behind the greatest number wraps to the least one.
    obtain ⟨rfl, rfl⟩ : limit = 1 ∧ offset = Int64.maxValue :=
      not_not.1 (mt (fits64_pageAt_iff offset hlimit).2 hfits)
    exact iff_of_false (by decide) fun h => hfits h.2

theorem one_le_currentPage_iff (h : r.limit = some limit) (hlimit : 0 < limit.toInt) :
    1 ≤ (r.normalize.currentPage limit).toInt ↔ r.TellsPage limit := by
  rw [currentPage_normalize h, TellsPage]
  cases r.offset with
  | none =>
    cases r.page with
    | none => exact iff_of_true (show 1 ≤ (1 : Int64).toInt by decide) trivial
    | some page => exact iff_of_true (one_le_toInt_max page) trivial
  | some offset =>
    cases r.page with
    | none => exact one_le_toInt_pageAt_iff offset hlimit
    | some page => exact Iff.rfl

theorem limit_normalize (r : Request) : r.normalize.limit = r.limit := by
  obtain ⟨page, offset, h⟩ := r.exists_normalize_eq
  rw [h]

end Request

/-! ## §5 Plans -/

namespace Plan

/-- **The numbers that a plan tells.** The response to a planned request counts the rows. If it tells a
    number of pages, they hold all rows, and one page less does not unless it is the first; and the
    page that it tells is the first one or a later one exactly if the request asks for such a
    page. -/
theorem respond_tells (request : Request) (additional : Filter) {α : Type} (rows : List α)
    (total : Int64) :
    ∀ info ∈ ((new request additional).respond rows total).pages,
      info.count = some total ∧
      (∀ pages ∈ info.pageCount, ∃ limit ∈ info.limit,
        total.toInt ≤ pages.toInt * limit.toInt ∧
        (pages.toInt - 1) * limit.toInt < max total.toInt 1) ∧
      ∀ page ∈ info.currentPage, ∃ limit ∈ request.limit,
        (1 ≤ page.toInt ↔ request.TellsPage limit) := by
  intro info hinfo
  have hplanned : info ∈
      (request.withFilter (request.filter.merge additional)).normalize.pageInfo total := hinfo
  have hsame (limit : Int64) :
      (request.withFilter (request.filter.merge additional)).TellsPage limit ↔
        request.TellsPage limit := Iff.rfl
  have hlimit : (request.withFilter (request.filter.merge additional)).limit = request.limit := rfl
  generalize request.withFilter (request.filter.merge additional) = planned at hplanned hsame hlimit
  by_cases hpositive : ∃ limit ∈ planned.limit, 0 < limit.toInt
  · obtain ⟨limit, hmem, hpos⟩ := hpositive
    have hnormal : planned.normalize.limit = some limit := planned.limit_normalize.trans hmem
    rw [Request.pageInfo_of_limit hnormal hpos] at hplanned
    obtain ⟨⟩ := hplanned
    refine ⟨rfl, fun pages hpages => ⟨limit, rfl, ?_⟩, fun page hpage => ⟨limit, hlimit ▸ hmem, ?_⟩⟩
    · obtain rfl := Option.some.inj hpages
      obtain ⟨hall, hfewer⟩ := pagesFor_bounds total.toInt hpos
      rw [Request.toInt_pageCount total hpos]
      exact ⟨hall, lt_of_lt_of_le hfewer (le_max_left _ _)⟩
    · obtain rfl := Option.some.inj hpage
      rw [← hsame]
      exact Request.one_le_currentPage_iff hmem hpos
  · have hnone : ∀ limit ∈ planned.normalize.limit, ¬0 < limit.toInt := fun limit hmem hpos =>
      hpositive ⟨limit, planned.limit_normalize ▸ hmem, hpos⟩
    rw [Request.pageInfo_of_no_limit hnone total info hplanned]
    exact ⟨rfl, nofun, nofun⟩

/-- A page before the first one is put right if the offset is derived from it. -/
theorem respond_tells_derivedOffset :
    ((new { limit := some 10, page := some 0 } {}).respond ["a", "b"] 12).pages =
        some ⟨some 0, some 10, some 12, some 2, some 1⟩ ∧
      (∃ limit ∈ some (10 : Int64), (12 : Int64).toInt ≤ (2 : Int64).toInt * limit.toInt ∧
        ((2 : Int64).toInt - 1) * limit.toInt < max (12 : Int64).toInt 1) ∧
      ∃ limit ∈ some (10 : Int64), (1 ≤ (1 : Int64).toInt ↔
        ({ limit := some 10, page := some 0 } : Request).TellsPage limit) := by
  have hpages : ((new { limit := some 10, page := some 0 } {}).respond ["a", "b"] 12).pages =
      some ⟨some 0, some 10, some 12, some 2, some 1⟩ := by decide
  obtain ⟨-, hcount, hpage⟩ := respond_tells _ _ ["a", "b"] 12 _ hpages
  exact ⟨hpages, hcount 2 rfl, hpage 1 rfl⟩

/-- Beside an offset, a page before the first one is told as it stands. -/
theorem respond_pageZero :
    ∃ info ∈ ((new { limit := some 10, offset := some 5, page := some 0 } {}).respond
      ([] : List String) 20).pages, ∃ page ∈ info.currentPage, ¬1 ≤ page.toInt :=
  ⟨_, rfl, _, rfl, by decide⟩

end Plan

end ListQuery
