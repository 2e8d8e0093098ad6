import ListQuery.Diagnostic.Event
import ListQuery.Filter.Basic
import ListQuery.Relation.Forest
import ListQuery.Relation.Paths
import ListQuery.Request.Paging

/-!
# Reported events

Three parts of the library report what they do. A reading of a relation list reports every problem
it goes past, and what it leaves out. The application of a filter reports each node it comes to,
with the number of its parts. A request reports the offset that is derived from its page.
-/

namespace ListQuery

open Diagnostic (Event)

/-! ## §1 Relation lists -/

/-- The report of a problem that is ignored. -/
def Relation.ParseError.toleratedEvent (e : Relation.ParseError) : Event :=
  { level := .debug
    target := "quarry_dsl::parser::parser"
    message := "tolerating malformed nested input"
    fields := [("offset", .number e.offset), ("problem", .text e.problem.message)] }

/-- The report of a block that is left out. -/
def Relation.droppedBlockEvent (relation : String) (offset maxDepth : Nat) : Event :=
  { level := .warn
    target := "quarry_dsl::parser::parser"
    message := "dropping nested block beyond depth limit"
    fields := [
      ("relation", .text relation), ("offset", .number offset), ("max_depth", .number maxDepth)] }

/-- The report of a request that has no end. -/
def Relation.unterminatedEvent (relation : String) (offset : Nat) : Event :=
  { level := .warn
    target := "quarry_dsl::parser::tree"
    message := "ignoring unterminated embedded query"
    fields := [("relation", .quoted relation), ("offset", .number offset)] }

/-- The report of a request that cannot be read. -/
def Relation.unreadableEvent (relation : String) (offset : Nat) (error : DecodeError) : Event :=
  { level := .warn
    target := "quarry_dsl::parser::tree"
    message := "ignoring unreadable embedded query"
    fields := [
      ("relation", .quoted relation), ("offset", .number offset),
      ("error", .text error.message)] }

/-- What a notice reports. A block that is too deep and a request that cannot be read report what
    is lost; all other problems are reported as tolerated. -/
def Relation.Notice.events (n : Relation.Notice) : List Event :=
  match n.error.problem, n.effect with
  | .tooDeep maxDepth, .droppedBlock relation =>
    [droppedBlockEvent relation n.error.offset maxDepth]
  | .invalidRequest error, .droppedRequest relation =>
    [unreadableEvent relation n.error.offset error]
  | _, .droppedRequest relation =>
    -- A request without an end is a problem that is tolerated, and it is lost as well.
    [n.error.toleratedEvent, unterminatedEvent relation n.error.offset]
  | _, _ => [n.error.toleratedEvent]

/-- What the reading of paths reports. -/
def Relation.Policy.pathEvents (policy : Relation.Policy) (source : String) : List Event :=
  (noticesIn (policy.tracePaths source).log).flatMap Notice.events

/-- What the reading of relations reports. -/
def Relation.Policy.forestEvents (policy : Relation.Policy) (source : String) : List Event :=
  (policy.traceForest source).log.flatMap Notice.events

/-! ## §2 Filters -/

namespace Filter

/-- The report of a node at a depth. -/
def nodeEvent (depth fields conjuncts alternatives : Nat) (negated : Bool) : Event :=
  { level := .trace
    target := "quarry_core::builder"
    message := "applying filter node"
    fields := [
      ("depth", .number depth), ("fields", .number fields), ("and", .number conjuncts),
      ("or", .number alternatives), ("not", .flag negated)] }

mutual

/-- What the application of a filter at a depth reports, every node before those below it. -/
def eventsAt (depth : Nat) : Filter → List Event
  | ⟨and, or, not, fields⟩ =>
    nodeEvent depth fields.size and.length or.length not.isSome ::
      (eventsAtAll (depth + 1) and ++ eventsAtAll (depth + 1) or ++
        match not with
        | none => []
        | some f => f.eventsAt (depth + 1))

def eventsAtAll (depth : Nat) : List Filter → List Event
  | [] => []
  | f :: rest => f.eventsAt depth ++ eventsAtAll depth rest

end

def events (f : Filter) : List Event :=
  f.eventsAt 0

end Filter

/-! ## §3 Requests -/

/-- The report of a derived offset. -/
def DerivedOffset.event (d : DerivedOffset) : Event :=
  { level := .debug
    target := "quarry_core::pagination"
    message := "derived offset from page"
    fields := [
      ("page", .number d.page.toInt), ("limit", .number d.limit.toInt),
      ("offset", .number d.offset.toInt)] }

def Request.events (r : Request) : List Event :=
  (r.derivedOffset?.map DerivedOffset.event).toList

end ListQuery
