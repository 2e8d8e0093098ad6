import ListQuery.Filter.Wire
import ListQuery.Json.Printer
import ListQuery.Request.Basic

/-!
# The wire form of requests and responses

Records are written in declaration order, without the members that are unset or empty, and read as
`Json.record` says. The members of a request that hold something other than a number may also be
`null`, which is the same as leaving them out.

A direction is read leniently: the word `desc`, in any case of its ASCII letters, is descending, and
any other word and `null` are ascending.

A request can also come as query parameters: `where`, `sort` and `select` hold JSON texts, `limit`,
`skip` and `page` JSON integers, and `nested` a bare text. Empty and unknown parameters are passed
over, and of several with one name the last one stays.
-/

namespace ListQuery

open Json (Value RecordField Reader Fault)

/-! ## §1 Writing -/

/-- A member that is written only if it is set. -/
def optionalMember (key : String) : Option Int64 → List (String × Value)
  | some n => [(key, .ofInt64 n)]
  | none => []

/-- A member that is written unless it is empty. -/
def memberUnless (isEmpty : Bool) (key : String) (v : Value) : List (String × Value) :=
  if isEmpty then [] else [(key, v)]

def Direction.word : Direction → String
  | .ascending => "asc"
  | .descending => "desc"

def Order.document (o : Order) : Value :=
  .object [("field", .string o.field), ("dir", .string o.direction.word)]

def Request.document (r : Request) : Value :=
  .object (
    memberUnless r.filter.isEmpty "where" r.filter.document ++
    memberUnless r.order.isEmpty "sort" (.array (r.order.map Order.document)) ++
    memberUnless r.select.isEmpty "select" (.array (r.select.map .string)) ++
    memberUnless r.nested.isEmpty "nested" (.string r.nested) ++
    optionalMember "limit" r.limit ++
    optionalMember "skip" r.offset ++
    optionalMember "page" r.page)

def PageInfo.document (p : PageInfo) : Value :=
  .object (
    optionalMember "skip" p.skip ++
    optionalMember "limit" p.limit ++
    optionalMember "count" p.count ++
    optionalMember "pageCount" p.pageCount ++
    optionalMember "currentPage" p.currentPage)

/-- The wire form of a response whose rows are JSON values. -/
def Response.document (r : Response Value) : Value :=
  .object (("payload", .array r.rows) ::
    match r.pages with
    | some pages => [("pagination", pages.document)]
    | none => [])

/-! ## §2 Reading -/

variable {ε : Type}

/-- The direction that a word stands for. -/
def Direction.ofWord (word : String) : Direction :=
  if word.toList.map Char.toLower = ['d', 'e', 's', 'c'] then .descending else .ascending

def Direction.reader : Reader ε Direction := fun s => do
  let (word, rest) ← Json.nullable Json.string s
  .ok ((word.map Direction.ofWord).getD .ascending, rest)

/-- The fields of an ordering term; a term without its field is incomplete. -/
def Order.fields : List (RecordField ε (Option String × Direction)) := [
  .of "field" (fun _ => Json.string) fun draft name => (some name, draft.2),
  .of "dir" (fun _ => Direction.reader) fun draft direction => (draft.1, direction)]

def Order.reader : (depth : Nat) → Reader ε Order :=
  Json.completeRecord Order.fields (none, .ascending) fun draft =>
    draft.1.map fun name => ⟨name, draft.2⟩

def textsReader : (depth : Nat) → Reader ε (List String) :=
  Json.array fun _ => Json.string

def Request.fields : List (RecordField FilterError Request) := [
  .of "where" (fun depth => Json.nullable (Filter.reader depth)) fun r f =>
    { r with filter := f.getD {} },
  .of "sort" (fun depth => Json.nullable (Json.array Order.reader depth)) fun r order =>
    { r with order := order.getD [] },
  .of "select" (fun depth => Json.nullable (textsReader depth)) fun r select =>
    { r with select := select.getD [] },
  .of "nested" (fun _ => Json.nullable Json.string) fun r nested =>
    { r with nested := nested.getD "" },
  .of "limit" (fun _ => Json.nullable Json.int64) fun r limit => { r with limit },
  .of "skip" (fun _ => Json.nullable Json.int64) fun r offset => { r with offset },
  .of "page" (fun _ => Json.nullable Json.int64) fun r page => { r with page }]

def Request.reader : (depth : Nat) → Reader FilterError Request :=
  Json.record Request.fields {}

/-- The request that a JSON text writes. -/
def Request.ofChars (s : List Char) : Except DecodeError Request :=
  (Json.whole (Request.reader Json.depthLimit) s).mapError .invalidJson

def Request.ofJson (text : String) : Except DecodeError Request :=
  Request.ofChars text.toList

def PageInfo.fields : List (RecordField ε PageInfo) := [
  .of "skip" (fun _ => Json.nullable Json.int64) fun p skip => { p with skip },
  .of "limit" (fun _ => Json.nullable Json.int64) fun p limit => { p with limit },
  .of "count" (fun _ => Json.nullable Json.int64) fun p count => { p with count },
  .of "pageCount" (fun _ => Json.nullable Json.int64) fun p pageCount => { p with pageCount },
  .of "currentPage" (fun _ => Json.nullable Json.int64) fun p currentPage =>
    { p with currentPage }]

def PageInfo.reader : (depth : Nat) → Reader ε PageInfo :=
  Json.record PageInfo.fields {}

/-- The fields of a response; a response without rows is incomplete. -/
def Response.fields : List (RecordField ε (Option (List Value) × Option PageInfo)) := [
  .of "payload" (Json.array Json.value) fun draft rows => (some rows, draft.2),
  .of "pagination" (fun depth => Json.nullable (PageInfo.reader depth)) fun draft pages =>
    (draft.1, pages)]

def Response.reader : (depth : Nat) → Reader ε (Response Value) :=
  Json.completeRecord Response.fields (none, none) fun draft =>
    draft.1.map fun rows => ⟨rows, draft.2⟩

/-! ## §3 Query parameters -/

/-- What a parameter's text holds, read as JSON. -/
def parameter {α : Type} (name : String) (reader : Reader FilterError α) (raw : String) :
    Except DecodeError α :=
  (Json.whole reader raw.toList).mapError (.invalidParameter name)

namespace Request

/-- Enter one parameter into a request. -/
def enterParameter (r : Request) (name raw : String) : Except DecodeError Request :=
  let depth := Json.depthLimit
  -- An empty parameter leaves what an earlier one of its name set.
  if raw.isEmpty then .ok r
  else if name = "where" then do
    let f ← parameter name (Json.nullable (Filter.reader depth)) raw
    return { r with filter := f.getD {} }
  else if name = "select" then do
    let select ← parameter name (Json.nullable (textsReader depth)) raw
    return { r with select := select.getD [] }
  else if name = "sort" then do
    let order ← parameter name (Json.nullable (Json.array Order.reader depth)) raw
    return { r with order := order.getD [] }
  else if name = "limit" then do
    return { r with limit := some (← parameter name Json.int64 raw) }
  else if name = "skip" then do
    return { r with offset := some (← parameter name Json.int64 raw) }
  else if name = "page" then do
    return { r with page := some (← parameter name Json.int64 raw) }
  -- The one parameter that is no JSON text.
  else if name = "nested" then .ok { r with nested := raw }
  else .ok r

/-- The request that a list of query parameters writes; the first parameter that is not read is
    the one reported. -/
def ofParameters (parameters : List (String × String)) : Except DecodeError Request :=
  parameters.foldlM (fun r p => r.enterParameter p.1 p.2) {}

end Request

end ListQuery
