import ListQuery.Condition.Recorder
import ListQuery.Filter.Wire
import ListQuery.Json.Printer
import ListQuery.Relation.Forest
import ListQuery.Relation.Paths
import ListQuery.Request.Paging
import ListQuery.Request.Wire

/-!
# Checks

Checks tell whether what the library promises holds of one input. They compare what is read with
what is written, conditions with their arguments, the pages of a list with the number of its rows,
and the two readers of relation lists with one another.

The checks of requests and relation lists also take bytes, and have nothing to say about bytes that
are no text.
-/

namespace ListQuery

/-! ## §1 Filters and conditions -/

/-- Whether reading the written form of a filter gives the filter back. -/
def Filter.roundTrips (f : Filter) : Bool :=
  match Filter.ofJson f.toValue.text with
  | .ok g => g = f
  | .error _ => false

/-- Whether a condition has one argument for every placeholder. -/
def placeholdersMatch (condition : String) (arguments : Nat) : Bool :=
  condition.toList.count '?' = arguments

/-- Whether a text that is a filter stays the same filter when it is written and read again. -/
def Filter.checkText (text : String) : Bool :=
  match Filter.ofJson text with
  | .ok f =>
    match Filter.ofJson f.toValue.text with
    | .ok g => g.toValue = f.toValue
    | .error _ => false
  | .error _ => true

/-! ## §2 Pages -/

/-- The product of two numbers, if both and their product have 64 bits. -/
def product64? (a b : Int) : Option Int :=
  let inRange (n : Int) : Bool := -Nat.pow 2 63 ≤ n && n < Nat.pow 2 63
  if inRange a && inRange (a * b) then some (a * b) else none

/-- Whether the pages hold all rows and one page less does not, counted with 64 bits. -/
def pagesFit (count limit pageCount : Int) : Bool :=
  match product64? pageCount limit, product64? (pageCount - 1) limit with
  | some all, some fewer => count ≤ all && fewer < max count 1
  | _, _ => false

/-- Whether the numbers in page information agree. -/
def PageInfo.isConsistent (p : PageInfo) : Bool :=
  (match p.count, p.limit, p.pageCount with
    | some count, some limit, some pageCount =>
      pagesFit count.toInt limit.toInt pageCount.toInt
    | _, _, _ => true) &&
  match p.currentPage with
  | some page => 1 ≤ page.toInt
  | none => true

/-- Whether the page information of an empty list counts no rows, and has no pages unless there is a
    positive limit. -/
def Request.checkEmptyPages (r : Request) : Bool :=
  match r.normalize.pageInfo 0 with
  | some p =>
    p.count = some 0 &&
      match r.limit with
      | some limit => if 0 < limit.toInt then true else p.pageCount.isNone
      | none => p.pageCount.isNone
  | none => true

def checkQueryText (text : String) : Bool :=
  Filter.checkText text &&
    match Request.ofJson text with
    | .ok r => r.checkEmptyPages
    | .error _ => true

/-! ## §3 Relation lists -/

namespace Relation

/-- Whether a strict reading agrees with a lenient one, or fails within the text. -/
def agrees {α : Type} [DecidableEq α] (source : String) (lenient : α) :
    (strict : Except ParseError α) → Bool
  | .ok a => a = lenient
  | .error e => e.offset ≤ source.utf8ByteSize

/-- Check a text as a relation list: no path is blank, the two modes agree, and there are as many
    paths as relations. -/
def checkText (source : String) : Bool :=
  match Policy.lenient.readPaths source, Policy.lenient.readForest source with
  | .ok paths, .ok relations =>
    paths.all (fun path => !(Text.trim path.toList).isEmpty) &&
      agrees source paths (Policy.strict.readPaths source) &&
      agrees source relations (Policy.strict.readForest source) &&
      (pathsOfAll relations).length = countAll relations
  | _, _ => false

end Relation

/-! ## §4 Bytes -/

/-- Apply a check to bytes that are a text. -/
def checkBytes (check : String → Bool) (bytes : ByteArray) : Bool :=
  match String.fromUTF8? bytes with
  | some text => check text
  | none => true

end ListQuery
