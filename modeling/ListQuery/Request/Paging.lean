import ListQuery.Request.Basic

/-!
# Paging

A page of a list is a limit and an offset. `Request.normalize` derives the offset from the page, and
`Request.pageInfo` tells from the total number of rows which page of how many it is. A `Plan` is the
pair of requests behind one list: one that counts, and one that fetches, with an additional filter
put before the caller's in both.

Divisions go toward zero, and an offset beyond the 64-bit integers is cut to the nearest of them.
-/

namespace ListQuery

/-! ## §1 Arithmetic -/

/-- The least number of pages of `limit` rows that hold `count` rows, for a positive limit. -/
def pagesFor (count limit : Int) : Int :=
  let full := count.tdiv limit
  -- The rows that are left over need a page of their own.
  if 0 < count.tmod limit then full + 1 else full

/-- The page of `limit` rows that starts at the offset, counted from one. -/
def pageAt (offset limit : Int) : Int :=
  offset.tdiv limit + 1

/-- The offset at which a page of `limit` rows starts. -/
def offsetOf (page limit : Int) : Int :=
  (page - 1) * limit

/-! ## §2 Normal requests -/

/-- A page with the offset derived from it. -/
structure DerivedOffset where
  page : Int64
  limit : Int64
  offset : Int64
  deriving DecidableEq

namespace Request

/-- The offset that follows from page and limit, when the request gives both and no offset of its
    own. A page before the first one counts as the first. -/
def derivedOffset? (r : Request) : Option DerivedOffset :=
  match r.offset, r.page, r.limit with
  | none, some page, some limit =>
    -- The offset of a page before the first one would be negative.
    let page := if page.toInt < 1 then 1 else page
    some { page, limit, offset := Int64.ofIntClamp (offsetOf page.toInt limit.toInt) }
  | _, _, _ => none

/-- The request with its offset derived from the page. -/
def normalize (r : Request) : Request :=
  match r.derivedOffset? with
  | some d => { r with page := some d.page, offset := some d.offset }
  | none => r

/-- The page the request asks for, when pages have `limit` rows. -/
def currentPage (r : Request) (limit : Int64) : Int64 :=
  match r.page, r.offset with
  -- The page is told as the request has it, whatever the offset.
  | some page, _ => page
  | none, some offset => Int64.ofInt (pageAt offset.toInt limit.toInt)
  | none, none => 1

/-- What the response to the request says about its pages, when there are `total` rows. A request
    that is not paginated is told nothing, and without a positive limit there are no pages. -/
def pageInfo (r : Request) (total : Int64) : Option PageInfo :=
  if r.isPaginated then
    let info : PageInfo := { skip := r.offset, limit := r.limit, count := some total }
    match r.limit with
    | some limit =>
      if 0 < limit.toInt then
        some { info with
          pageCount := some (Int64.ofInt (pagesFor total.toInt limit.toInt))
          currentPage := some (r.currentPage limit) }
      else some info
    | none => some info
  else none

end Request

/-! ## §3 Plans -/

/-- The two requests behind one list. -/
structure Plan where
  /-- The request that fetches the rows. -/
  data : Request
  deriving DecidableEq

namespace Plan

/-- The plan of a request under an additional filter. -/
def new (r : Request) (additional : Filter) : Plan :=
  ⟨(r.withFilter (r.filter.merge additional)).normalize⟩

def count (p : Plan) : Request :=
  p.data.counting

/-- The response with the fetched rows, when there are `total` rows on all pages. -/
def respond {α : Type} (p : Plan) (rows : List α) (total : Int64) : Response α :=
  ⟨rows, p.data.pageInfo total⟩

end Plan

end ListQuery
