import ListQuery.Filter.Basic

/-!
# Building filters by calls

A filter can be built by a sequence of calls, each naming a field of the record type at hand. A
`Field` carries its record type, so that a filter for one type cannot name a field of another.
Calls on one field add up to one set of constraints, where a later call replaces an earlier one of
the same operator; conjuncts and alternatives are appended, and a negated filter replaces the one
before it.

There are fifteen operators for the thirteen kinds of constraints, since a truth value is not given
but told by the choice between two operators. Each operator sets its own constraint.

`FilterBuilder.Call` is a call as data: an operator by the constraint that it sets, and the filters
of nested builders by calls of their own. `FilterBuilder.run` makes a sequence of calls.

## Main statements

- `FilterBuilder.operate_eq_set`: what every operator does.
-/

namespace ListQuery

/-! ## §1 Fields -/

/-- A field of the record type `ρ`, by its path. -/
structure Field (ρ : Type) where
  path : String
  deriving DecidableEq

/-! ## §2 The builder -/

/-- A filter over records of type `ρ` under construction. -/
structure FilterBuilder (ρ : Type) where
  filter : Filter := {}
  deriving DecidableEq

namespace FilterBuilder

variable {ρ : Type}

def new : FilterBuilder ρ := {}

def build (b : FilterBuilder ρ) : Filter := b.filter

/-- Set a constraint on a field. -/
def set (b : FilterBuilder ρ) (field : Field ρ) (c : Constraint) : FilterBuilder ρ :=
  -- The other constraints on the field stay.
  let held := (b.filter.fields.get? field.path).getD {}
  ⟨b.filter.withField field.path (held.set c)⟩

/-- Append the filters of builders as conjuncts. -/
def and (b : FilterBuilder ρ) (subs : List (FilterBuilder ρ)) : FilterBuilder ρ :=
  ⟨{ b.filter with and := b.filter.and ++ subs.map build }⟩

/-- Append the filters of builders as alternatives. -/
def or (b : FilterBuilder ρ) (subs : List (FilterBuilder ρ)) : FilterBuilder ρ :=
  ⟨{ b.filter with or := b.filter.or ++ subs.map build }⟩

/-- Negate the filter of a builder, in place of any other negated filter. -/
def not (b : FilterBuilder ρ) (sub : FilterBuilder ρ) : FilterBuilder ρ :=
  ⟨{ b.filter with not := some sub.build }⟩

/-! ## §3 Operators -/

section Operators

open Json (Value)

variable (b : FilterBuilder ρ) (field : Field ρ)

def eq (operand : Value) : FilterBuilder ρ := b.set field (.eq operand)

def ne (operand : Value) : FilterBuilder ρ := b.set field (.ne operand)

def gt (operand : Value) : FilterBuilder ρ := b.set field (.gt operand)

def gte (operand : Value) : FilterBuilder ρ := b.set field (.gte operand)

def lt (operand : Value) : FilterBuilder ρ := b.set field (.lt operand)

def lte (operand : Value) : FilterBuilder ρ := b.set field (.lte operand)

def isIn (operands : List Value) : FilterBuilder ρ := b.set field (.oneOf operands)

def notIn (operands : List Value) : FilterBuilder ρ := b.set field (.noneOf operands)

def like (pattern : String) : FilterBuilder ρ := b.set field (.like pattern)

def ilike (pattern : String) : FilterBuilder ρ := b.set field (.ilike pattern)

def between (low high : Value) : FilterBuilder ρ := b.set field (.between low high)

def isNull : FilterBuilder ρ := b.set field (.null true)

def notNull : FilterBuilder ρ := b.set field (.null false)

def isPresent : FilterBuilder ρ := b.set field (.present true)

def notPresent : FilterBuilder ρ := b.set field (.present false)

/-- Call the operator that sets a constraint. -/
def operate : Constraint → FilterBuilder ρ
  | .eq v => b.eq field v
  | .ne v => b.ne field v
  | .gt v => b.gt field v
  | .gte v => b.gte field v
  | .lt v => b.lt field v
  | .lte v => b.lte field v
  | .oneOf vs => b.isIn field vs
  | .noneOf vs => b.notIn field vs
  | .like p => b.like field p
  | .ilike p => b.ilike field p
  | .between low high => b.between field low high
  | .null true => b.isNull field
  | .null false => b.notNull field
  | .present true => b.isPresent field
  | .present false => b.notPresent field

/-- Whatever the operator, the constraint that it is called for is set, and nothing else. -/
theorem operate_eq_set (c : Constraint) : b.operate field c = b.set field c := by
  cases c with
  | null expected | present expected => cases expected <;> rfl
  | _ => rfl

end Operators

/-! ## §4 Calls as data -/

inductive Call (ρ : Type) where
  /-- The operator that sets the constraint. -/
  | set (field : Field ρ) (c : Constraint)
  | and (subs : List (List (Call ρ)))
  | or (subs : List (List (Call ρ)))
  | not (sub : List (Call ρ))

mutual

def call (b : FilterBuilder ρ) : Call ρ → FilterBuilder ρ
  | .set field c => b.operate field c
  | .and subs => b.and (runEach subs)
  | .or subs => b.or (runEach subs)
  | .not sub => b.not (runFrom new sub)

def runFrom (b : FilterBuilder ρ) : List (Call ρ) → FilterBuilder ρ
  | [] => b
  | c :: rest => runFrom (b.call c) rest

/-- The builders of several sequences of calls. -/
def runEach : List (List (Call ρ)) → List (FilterBuilder ρ)
  | [] => []
  | calls :: rest => runFrom new calls :: runEach rest

end

theorem call_set (b : FilterBuilder ρ) (field : Field ρ) (c : Constraint) :
    b.call (.set field c) = b.set field c := by
  rw [call, operate_eq_set]

/-- The builder after a sequence of calls from the start. -/
def run (calls : List (Call ρ)) : FilterBuilder ρ :=
  runFrom new calls

/-- The field that a call names. -/
def Call.field? : Call ρ → Option (Field ρ)
  | .set field _ => some field
  | _ => none

end FilterBuilder

end ListQuery
