import ListQuery.Relation.Policy
import ListQuery.Request.Wire
import ListQuery.Text.Quoted

/-!
# Problems of relation lists

A problem is something in a relation list that does not belong there, at a byte position of the
list. A strict reading ends with the first problem as its error. A lenient reading leaves a notice
of every problem instead, together with what it did about it.
-/

namespace ListQuery.Relation

/-! ## §1 Problems -/

/-- Something wrong with a relation list. -/
inductive Problem where
  | unclosedBlock
  /-- A closing brace that closes nothing. -/
  | unmatchedClose
  | emptyName
  | unexpectedText (text : String)
  /-- An embedded request that is none. -/
  | invalidRequest (error : DecodeError)
  /-- A block that is too many levels deep. -/
  | tooDeep (maxDepth : Nat)
  deriving DecidableEq

def Problem.message : Problem → String
  | .unclosedBlock => "unclosed '\x7b'"
  | .unmatchedClose => "unmatched '\x7d'"
  | .emptyName => "empty relation name"
  | .unexpectedText text => "unexpected text after block: " ++ Text.quoted text
  | .invalidRequest error => "invalid embedded query: " ++ error.message
  | .tooDeep maxDepth => "nesting deeper than " ++ toString maxDepth ++ " levels"

structure ParseError where
  problem : Problem
  /-- The position in bytes. -/
  offset : Nat
  deriving DecidableEq

def ParseError.message (e : ParseError) : String :=
  "Parse error at offset " ++ toString e.offset ++ ": " ++ e.problem.message

/-! ## §2 Notices -/

/-- What a lenient reading does about a problem. -/
inductive Effect where
  | tolerated
  /-- It leaves out the block of a relation. -/
  | droppedBlock (relation : String)
  /-- It leaves out the request of a relation. -/
  | droppedRequest (relation : String)
  deriving DecidableEq

/-- A problem that a lenient reading went past. -/
structure Notice where
  error : ParseError
  effect : Effect
  deriving DecidableEq

end ListQuery.Relation
