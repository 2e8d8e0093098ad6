import ListQuery.Relation.Accept
import ListQuery.Relation.Basic

/-!
# Reading relation paths

The paths of a relation list are read without building the relations themselves: every entry gives
its path when it is accepted, before its block is read. The entries of a block are always read as
relations, so an embedded request is an entry without a name here.

The paths found so far are part of the trail, so they remain when the reading fails.
-/

namespace ListQuery.Relation

/-- What the reading of paths leaves in its trail. -/
inductive Finding where
  | path (path : String)
  | notice (notice : Notice)
  deriving DecidableEq

def Finding.path? : Finding → Option String
  | path found => some found
  | notice _ => none

def Finding.notice? : Finding → Option Notice
  | path _ => none
  | notice left => some left

namespace Policy

/-- Read the paths of an entry that lies below a path, with so many levels left inside it. The level
    in its block is read by `inner`, below the path of the entry. -/
def traceEntry (policy : Policy) (levels : Nat) (inner : String → Span → Trail Finding Unit)
    (outer : Option String) (e : Entry) : Trail Finding Unit := do
  match ← (policy.accept levels e).mapLog .notice with
  | none => return
  | some ⟨name, block⟩ =>
    let path := pathBelow outer name
    -- The path is found before its block is read, and stays found if that fails.
    .leave (.path path)
    match block with
    | none => return
    | some b => inner path b.content

/-- Read the paths of a level that lies below a path, with so many levels left inside it. Without
    any left no block is accepted, so nothing is read inside. -/
def traceLevel (policy : Policy) : (levels : Nat) → (outer : Option String) → Span →
    Trail Finding Unit
  | 0, outer, level =>
    Trail.forEach (policy.traceEntry 0 (fun _ _ => pure ()) outer) level.entries
  | levels + 1, outer, level =>
    Trail.forEach (policy.traceEntry (levels + 1)
      (fun path inside => traceLevel policy levels (some path) inside) outer) level.entries

/-- Read the paths of a relation list. -/
def tracePaths (policy : Policy) (source : String) : Trail Finding Unit :=
  policy.traceLevel policy.maxDepth none (outermost source.toList)

end Policy

def pathsIn (log : List Finding) : List String :=
  log.filterMap Finding.path?

def noticesIn (log : List Finding) : List Notice :=
  log.filterMap Finding.notice?

def Policy.readPaths (policy : Policy) (source : String) : Except ParseError (List String) :=
  let trail := policy.tracePaths source
  trail.result.map fun _ => pathsIn trail.log

end ListQuery.Relation
