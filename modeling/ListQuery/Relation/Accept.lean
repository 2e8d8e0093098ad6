import ListQuery.Relation.Entry
import ListQuery.Relation.Trail

/-!
# Accepting entries

An entry is checked in a fixed order before anything inside it is read: a closing brace that closes
nothing, a missing name, a block that is not closed, text behind the block, and a block that is too
many levels deep. Read leniently, an entry without a name is passed over, a block that is too deep
is left out, and everything else that is wrong is ignored.

Both readers of relation lists accept entries in this way.
-/

namespace ListQuery.Relation

/-- An entry that has a name, with the block to enter. -/
structure Accepted where
  name : String
  block : Option Block
  deriving DecidableEq

/-- The name of an entry: its trimmed text without closing braces. -/
def Entry.relationName (e : Entry) : List Char :=
  Text.trim (e.name.text.filter (· ≠ '\x7d'))

namespace Policy

/-- Check the block of an entry: it has to be closed, with nothing but blanks behind it. -/
def checkBlock (policy : Policy) (e : Entry) (b : Block) : Trail Notice Unit := do
  if !b.closed then
    policy.meet .unclosedBlock b.openAt
  let text := Text.trim e.trailing.text
  if !text.isEmpty then
    policy.meet (.unexpectedText (String.ofList text)) e.trailing.offset

/-- The block of a relation, if there is one and there are levels left to enter it. -/
def enterBlock (policy : Policy) (levels : Nat) (relation : String) (b : Block) :
    Trail Notice (Option Block) := do
  if levels = 0 then
    policy.meet (.tooDeep policy.maxDepth) b.openAt (.droppedBlock relation)
    return none
  return some b

/-- Check an entry with so many levels left inside it. The answer is empty for an entry that is
    passed over. -/
def accept (policy : Policy) (levels : Nat) (e : Entry) : Trail Notice (Option Accepted) := do
  if let some offset := e.strayClose then
    policy.meet .unmatchedClose offset
  -- Closing braces were met above and are no part of the name.
  let name := String.ofList e.relationName
  if name.isEmpty then
    policy.meet .emptyName e.name.offset
    return none
  match e.block with
  | none => return some ⟨name, none⟩
  | some b =>
    -- What is wrong with the block itself comes before its depth.
    policy.checkBlock e b
    return some ⟨name, ← policy.enterBlock levels name b⟩

end Policy

end ListQuery.Relation
