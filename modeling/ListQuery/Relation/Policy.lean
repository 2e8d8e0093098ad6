/-!
# Reading policies

A relation list is read leniently or strictly. A lenient reading carries on past every problem, and
a strict one ends at the first. Under either, blocks are entered only so many levels deep.
-/

namespace ListQuery.Relation

/-- What a reading does about a problem. -/
inductive Mode where
  | lenient
  | strict
  deriving DecidableEq, Repr

def Mode.name : Mode → String
  | .lenient => "lenient"
  | .strict => "strict"

/-- How relation lists are read. -/
structure Policy where
  mode : Mode
  /-- The number of blocks that may stand inside one another. -/
  maxDepth : Nat
  deriving DecidableEq, Repr

namespace Policy

/-- The number of levels entered when nothing else is said. -/
def defaultDepth : Nat := 32

def lenient : Policy := ⟨.lenient, defaultDepth⟩

def strict : Policy := ⟨.strict, defaultDepth⟩

def isStrict (p : Policy) : Bool :=
  p.mode = .strict

def withMaxDepth (p : Policy) (maxDepth : Nat) : Policy :=
  { p with maxDepth }

end Policy

end ListQuery.Relation
