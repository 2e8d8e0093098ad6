import ListQuery.Json.Value

/-!
# Constraints on one field

A constraint is one comparison of a field with an operand. A field carries at most one constraint
of each of the thirteen operators, and all of them have to hold; `Constraints` is such a set.
`Constraints.toList` lists the constraints that are set in the order of the operators, and every
rule that goes over the operators is stated on this list.

An empty list of alternatives and an empty pattern are *vacuous*: they can be set, but constrain
nothing.
-/

namespace ListQuery

open Json (Value)

/-! ## §1 Constraints -/

/-- A comparison of a field with an operand. -/
inductive Constraint where
  | eq (operand : Value)
  | ne (operand : Value)
  | gt (operand : Value)
  | gte (operand : Value)
  | lt (operand : Value)
  | lte (operand : Value)
  /-- The field is one of the values. -/
  | oneOf (operands : List Value)
  /-- The field is none of the values. -/
  | noneOf (operands : List Value)
  /-- The pattern occurs in the field. -/
  | like (pattern : String)
  /-- The pattern occurs in the field, whatever its case. -/
  | ilike (pattern : String)
  /-- The field lies between the values, ends included. -/
  | between (low high : Value)
  /-- The field is not null if `true`, null if `false`. -/
  | present (expected : Bool)
  /-- The field is null if `true`, not null if `false`. -/
  | null (expected : Bool)
  deriving DecidableEq

/-- Whether a constraint constrains nothing. -/
def Constraint.isVacuous : Constraint → Bool
  | .oneOf operands | .noneOf operands => operands.isEmpty
  | .like pattern | .ilike pattern => pattern.isEmpty
  | _ => false

/-! ## §2 Sets of constraints -/

/-- The constraints on one field, at most one of each operator. -/
structure Constraints where
  eq : Option Value := none
  ne : Option Value := none
  gt : Option Value := none
  gte : Option Value := none
  lt : Option Value := none
  lte : Option Value := none
  oneOf : Option (List Value) := none
  noneOf : Option (List Value) := none
  like : Option String := none
  ilike : Option String := none
  between : Option (Value × Value) := none
  present : Option Bool := none
  null : Option Bool := none
  deriving DecidableEq

namespace Constraints

instance : Inhabited Constraints := ⟨{}⟩

/-- The set whose only constraint is an equality. -/
def equalTo (v : Value) : Constraints :=
  { eq := some v }

/-- The set with one constraint set, in place of any other of the same operator. -/
def set (c : Constraints) : Constraint → Constraints
  | .eq v => { c with eq := some v }
  | .ne v => { c with ne := some v }
  | .gt v => { c with gt := some v }
  | .gte v => { c with gte := some v }
  | .lt v => { c with lt := some v }
  | .lte v => { c with lte := some v }
  | .oneOf vs => { c with oneOf := some vs }
  | .noneOf vs => { c with noneOf := some vs }
  | .like p => { c with like := some p }
  | .ilike p => { c with ilike := some p }
  | .between low high => { c with between := some (low, high) }
  | .present b => { c with present := some b }
  | .null b => { c with null := some b }

/-- The constraints that are set, in the order of the operators. -/
def toList (c : Constraints) : List Constraint :=
  (c.eq.map .eq).toList ++ (c.ne.map .ne).toList ++ (c.gt.map .gt).toList ++
    (c.gte.map .gte).toList ++ (c.lt.map .lt).toList ++ (c.lte.map .lte).toList ++
    (c.oneOf.map .oneOf).toList ++ (c.noneOf.map .noneOf).toList ++
    (c.like.map .like).toList ++ (c.ilike.map .ilike).toList ++
    (c.between.map fun range => .between range.1 range.2).toList ++
    (c.present.map .present).toList ++ (c.null.map .null).toList

def isEmpty (c : Constraints) : Bool :=
  c.toList.all Constraint.isVacuous

/-- Whether the set constrains its field by an equality and by nothing else. -/
def isPlainEquality (c : Constraints) : Bool :=
  c.eq.isSome && { c with eq := none }.isEmpty

/-- The set without its vacuous constraints. -/
def dropVacuous (c : Constraints) : Constraints :=
  { c with
    oneOf := c.oneOf.filter fun operands => !operands.isEmpty
    noneOf := c.noneOf.filter fun operands => !operands.isEmpty
    like := c.like.filter fun pattern => !pattern.isEmpty
    ilike := c.ilike.filter fun pattern => !pattern.isEmpty }

/-- Nothing is vacuous once the vacuous constraints are dropped. -/
theorem isVacuous_of_mem_dropVacuous {c : Constraints} {k : Constraint}
    (h : k ∈ c.dropVacuous.toList) : k.isVacuous = false := by
  -- A constraint in the list is one of the thirteen, and four of those went through a filter.
  simp only [dropVacuous, toList, List.mem_append, Option.mem_toList, Option.map_eq_some_iff,
    Option.filter_eq_some_iff] at h
  rcases h with ((((((((((((h | h) | h) | h) | h) | h) | h) | h) | h) | h) | h) | h) | h) <;>
    obtain ⟨a, ha, rfl⟩ := h <;> simp_all [Constraint.isVacuous]

end Constraints

end ListQuery
