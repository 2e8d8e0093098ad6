import ListQuery.Filter.Basic

/-!
# Applying a filter to a query

A filter is applied to a query through four operations on query builders, whatever the builders are:
one for the constraints on a field, and one for each way of combining a builder with another. First
the fields of a node are applied in path order. Then each of its conjuncts, alternatives and negated
filters is applied to an isolated builder of its own, which is then combined into the node's.

The operations may have effects; they are made in the order just described.
-/

namespace ListQuery

/-- Operations on builders of type `β`. -/
structure BuilderOps (m : Type → Type) (β : Type) where
  field : β → String → Constraints → m β
  and : β → β → m β
  or : β → β → m β
  not : β → β → m β
  /-- A builder in the same context, without any condition. -/
  isolate : β → m β

namespace Filter

variable {m : Type → Type} {β : Type} [Monad m]

def applyFields (ops : BuilderOps m β) (b : β) : List (String × Constraints) → m β
  | [] => pure b
  | (path, c) :: rest => do
    let b ← ops.field b path c
    applyFields ops b rest

mutual

/-- Apply a filter to a builder. -/
def apply (ops : BuilderOps m β) (b : β) : Filter → m β
  | ⟨and, or, not, fields⟩ => do
    let b ← applyFields ops b fields.entries
    let b ← applyAll ops ops.and b and
    let b ← applyAll ops ops.or b or
    applyOption ops b not

/-- Apply filters, each to a builder of its own that is then combined with the given one. -/
def applyAll (ops : BuilderOps m β) (combine : β → β → m β) (b : β) : List Filter → m β
  | [] => pure b
  | f :: rest => do
    let sub ← ops.isolate b
    let sub ← f.apply ops sub
    let b ← combine b sub
    applyAll ops combine b rest

def applyOption (ops : BuilderOps m β) (b : β) : Option Filter → m β
  | none => pure b
  | some f => do
    let sub ← ops.isolate b
    let sub ← f.apply ops sub
    ops.not b sub

end

end Filter

end ListQuery
