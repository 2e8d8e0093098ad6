import ListQuery.Filter.Basic

/-!
# List requests and responses

A list request asks for rows that pass a filter, in an order, with some columns selected, related
rows loaded along, and possibly one page of them only. The response carries the rows and, for a
paginated request, what is known about the pages. All counts are 64-bit integers.
-/

namespace ListQuery

/-! ## §1 Requests -/

inductive Direction where
  | ascending
  | descending
  deriving DecidableEq, Repr

def Direction.keyword : Direction → String
  | .ascending => "ASC"
  | .descending => "DESC"

structure Order where
  field : String
  direction : Direction := .ascending
  deriving DecidableEq

/-- What a caller asks of a list. -/
structure Request where
  /-- The rows wanted. -/
  filter : Filter := {}
  /-- Their order. -/
  order : List Order := []
  /-- The columns wanted; all of them when empty. -/
  select : List String := []
  /-- The relations to load along, as the text of a relation list. -/
  nested : String := ""
  /-- The greatest number of rows wanted. -/
  limit : Option Int64 := none
  /-- The number of rows to leave out at the start. -/
  offset : Option Int64 := none
  /-- The page wanted, counted from one. -/
  page : Option Int64 := none
  deriving DecidableEq

namespace Request

instance : Inhabited Request := ⟨{}⟩

def withFilter (r : Request) (f : Filter) : Request :=
  { r with filter := f }

/-- Whether the request asks for a part of the list. -/
def isPaginated (r : Request) : Bool :=
  r.limit.isSome || r.offset.isSome || r.page.isSome

/-- Select a column too, if columns are selected and it is not among them. Loading related rows
    needs the columns that link them, whether or not the caller asked for these. -/
def ensureSelected (r : Request) (column : String) : Request :=
  -- Selecting nothing is selecting everything.
  if column.isEmpty || r.select.isEmpty || r.select.contains column then r
  else { r with select := r.select ++ [column] }

/-- The request that counts the rows: it has the filter and nothing else. -/
def counting (r : Request) : Request :=
  { filter := r.filter }

end Request

/-! ## §2 Responses -/

/-- What is known about the pages of a list. -/
structure PageInfo where
  skip : Option Int64 := none
  limit : Option Int64 := none
  /-- The number of rows on all pages. -/
  count : Option Int64 := none
  pageCount : Option Int64 := none
  currentPage : Option Int64 := none
  deriving DecidableEq

/-- Rows with the pages they come from. -/
structure Response (α : Type) where
  rows : List α
  pages : Option PageInfo := none
  deriving DecidableEq

end ListQuery
