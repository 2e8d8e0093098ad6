import ListQuery.Condition.Apply
import ListQuery.Filter.Wire

/-!
# The calls that applying a filter makes

A builder that does nothing but log the calls on it shows how a filter is applied. Builders are
numbers: the one given has some number, and every isolated builder takes the next free one.
-/

namespace ListQuery

/-- A call on a builder. -/
inductive BuilderCall where
  | field (builder : Nat) (path : String) (c : Constraints)
  /-- A new builder is isolated from another one. -/
  | isolate (source new : Nat)
  | combine (combinator : Combinator) (into sub : Nat)
  deriving DecidableEq

/-- The calls made so far and the next free number. -/
structure CallLog where
  calls : List BuilderCall := []
  next : Nat := 1

namespace CallLog

def add (call : BuilderCall) : StateM CallLog Unit :=
  modify fun log => { log with calls := log.calls ++ [call] }

def combine (combinator : Combinator) (into sub : Nat) : StateM CallLog Nat := do
  add (.combine combinator into sub)
  return into

/-- The operations of logging builders. -/
def ops : BuilderOps (StateM CallLog) Nat where
  field b path c := do
    add (.field b path c)
    return b
  and := combine .and
  or := combine .or
  not := combine .not
  isolate b := do
    let new := (← get).next
    modify fun log => { log with next := new + 1 }
    add (.isolate b new)
    return new

/-- The calls that applying a filter to builder 0 makes, and the number of the builder returned. -/
def ofFilter (f : Filter) : Nat × List BuilderCall :=
  let (last, log) := (f.apply ops 0).run {}
  (last, log.calls)

end CallLog

end ListQuery
