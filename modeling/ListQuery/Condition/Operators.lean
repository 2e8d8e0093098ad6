import ListQuery.Condition.Apply
import ListQuery.Condition.Reference

/-!
# Conditions of the operators

Every constraint on a field is one condition on its reference, with a placeholder for each operand.
An equality with `null` is a test for null, a list of values is bound as a whole, and a pattern is
put between percent signs, so that it may stand anywhere in the field. Comparisons cast a document
reference to the type of their operand. A vacuous constraint is no condition.
-/

namespace ListQuery

open Json (Value)

/-! ## §1 One constraint -/

/-- A pattern that may stand anywhere in a text. -/
def anywhere (pattern : String) : Value :=
  .string ("%" ++ pattern ++ "%")

/-- A comparison of a reference with one operand. -/
def comparison (r : Reference) (symbol : String) (v : Value) : Atom :=
  ⟨castReference r.text r.isDocument v ++ " " ++ symbol ++ " ?", [v]⟩

/-- A test of a reference that takes no operand. -/
def nullTest (r : Reference) (isNull : Bool) : Atom :=
  ⟨r.text ++ (if isNull then " IS NULL" else " IS NOT NULL"), []⟩

/-- The condition of a constraint on a reference; a vacuous constraint has none. -/
def Constraint.condition? (r : Reference) : Constraint → Option Atom
  | .eq .null => some (nullTest r true)
  | .eq v => some (comparison r "=" v)
  | .ne .null => some (nullTest r false)
  | .ne v => some (comparison r "<>" v)
  | .gt v => some (comparison r ">" v)
  | .gte v => some (comparison r ">=" v)
  | .lt v => some (comparison r "<" v)
  | .lte v => some (comparison r "<=" v)
  | .oneOf vs => if vs.isEmpty then none else some ⟨r.text ++ " IN ?", [.array vs]⟩
  | .noneOf vs => if vs.isEmpty then none else some ⟨r.text ++ " NOT IN ?", [.array vs]⟩
  | .like p => if p.isEmpty then none else some ⟨r.text ++ " LIKE ?", [anywhere p]⟩
  | .ilike p => if p.isEmpty then none else some ⟨r.text ++ " ILIKE ?", [anywhere p]⟩
  | .between low high =>
    some ⟨castReference r.text r.isDocument low ++ " BETWEEN ? AND ?", [low, high]⟩
  | .present b => some (nullTest r !b)
  | .null b => some (nullTest r b)

/-! ## §2 All constraints on a field -/

namespace Recorder

/-- The conditions of the constraints on the field at a path, in the order of the operators. -/
def conditions (r : Recorder) (path : String) (c : Constraints) : List Atom :=
  c.toList.filterMap (Constraint.condition? (r.reference path))

/-- Record the conditions of the constraints on the field at a path. -/
def field (r : Recorder) (path : String) (c : Constraints) : Recorder :=
  (r.conditions path c).foldl condition r

/-! ## §3 Filters -/

/-- The operations of recorders, which have no effects. -/
def ops : BuilderOps Id Recorder where
  field r path c := pure (r.field path c)
  and r sub := pure (r.and sub)
  or r sub := pure (r.or sub)
  not r sub := pure (r.not sub)
  isolate r := pure r.isolated

def apply (r : Recorder) (f : Filter) : Recorder :=
  (f.apply ops r).run

/-- The condition of a filter in the recorder's context. -/
def renderFilter (r : Recorder) (f : Filter) : Rendered :=
  (r.apply f).rendered

end Recorder

end ListQuery
