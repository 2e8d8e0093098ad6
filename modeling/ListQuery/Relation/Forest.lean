import ListQuery.Relation.Accept
import ListQuery.Relation.Basic

/-!
# Reading relations

A relation list is read into a list of relation trees. The block of a relation may start with a JSON
object, the request of that relation; a comma separates it from the relations behind it:

    posts { {"limit": 5}, author { profile }, comments }

Read leniently, an object that is no request leaves its relation without one, and the relations
behind it are read all the same.
-/

namespace ListQuery.Relation

/-- A block with its request taken off the front. -/
structure BlockParts where
  query : Option Request := none
  /-- The level behind the request, if there is anything. -/
  children : Option Span := none

namespace Policy

/-- Read the request that an object writes, for a relation. -/
def readRequest (policy : Policy) (relation : String) (object : Span) :
    Trail Notice (Option Request) :=
  match Request.ofChars object.text with
  | .ok r => return some r
  | .error error => do
    policy.meet (.invalidRequest error) object.offset (.droppedRequest relation)
    return none

/-- The level behind a request. What follows the request should be a comma. -/
def levelBehind (policy : Policy) (after : Span) : Trail Notice (Option Span) := do
  let rest := after.trimStart
  match rest.text with
  | [] => return none
  | c :: s =>
    if c = ',' then
      return some ⟨s, rest.offset + 1⟩
    else
      -- Read leniently, the relations behind the request need no comma.
      policy.meet (.unexpectedText (String.ofList (Text.trimEnd rest.text))) rest.offset
      return some rest

/-- Take the request off the front of a block, if it starts with an object. -/
def splitBlock (policy : Policy) (relation : String) (b : Block) : Trail Notice BlockParts := do
  let front := b.content.trimStart
  match front.text with
  | '\x7b' :: s =>
    match cutBlock s with
    | none =>
      -- The object takes everything behind it along.
      policy.meet .unclosedBlock front.offset (.droppedRequest relation)
      return {}
    | some (body, rest) =>
      -- The object is cut out by its braces alone; reading it as JSON comes after.
      let object : Span := ⟨'\x7b' :: body ++ ['\x7d'], front.offset⟩
      let query ← policy.readRequest relation object
      let children ← policy.levelBehind ⟨rest, object.stop⟩
      return { query, children }
  | _ => return { children := some b.content }

/-- Read an entry with so many levels left inside it. The level in its block is read by `inner`. -/
def readEntry (policy : Policy) (levels : Nat) (inner : Span → Trail Notice (List Relation))
    (e : Entry) : Trail Notice (Option Relation) := do
  match ← policy.accept levels e with
  | none => return none
  | some ⟨name, none⟩ => return some { name }
  -- The request is read before the relations behind it, and so are its problems met.
  | some ⟨name, some b⟩ =>
    let parts ← policy.splitBlock name b
    let children ←
      match parts.children with
      | some level => inner level
      | none => pure []
    return some { name, query := parts.query, children }

/-- Read the relations of a level with so many levels left inside it. Without any left no block is
    accepted, so nothing is read inside. -/
def readLevel (policy : Policy) : (levels : Nat) → Span → Trail Notice (List Relation)
  | 0, level => Trail.gather (policy.readEntry 0 fun _ => pure []) level.entries
  | levels + 1, level =>
    Trail.gather (policy.readEntry (levels + 1) (readLevel policy levels)) level.entries

/-- Read the relations of a relation list. -/
def traceForest (policy : Policy) (source : String) : Trail Notice (List Relation) :=
  policy.readLevel policy.maxDepth (outermost source.toList)

def readForest (policy : Policy) (source : String) : Except ParseError (List Relation) :=
  (policy.traceForest source).result

end Policy

end ListQuery.Relation
