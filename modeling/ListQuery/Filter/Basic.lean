import ListQuery.Filter.Constraint
import ListQuery.Text.Split

/-!
# Filters

A filter is a tree. Every node has constraints on fields, which all have to hold, a list of filters
that all have to hold, a list of alternatives, and possibly a filter that must not hold. A field is
named by a path; a path with dots leads into a relation or a document column.

`Filter.walk` visits the constrained fields of the whole tree: those of a node come first, then the
ones below its conjuncts, below its alternatives, and below its negated filter.
-/

namespace ListQuery

/-! ## §1 The tree -/

/-- A boolean expression over the fields of a record. -/
structure Filter where
  /-- Filters that all have to hold. -/
  and : List Filter := []
  or : List Filter := []
  /-- A filter that must not hold. -/
  not : Option Filter := none
  /-- Constraints on fields, by path. -/
  fields : KeyMap Constraints := ∅

namespace Filter

mutual

def decEq : (a b : Filter) → Decidable (a = b)
  | ⟨and, or, not, fields⟩, ⟨and', or', not', fields'⟩ =>
    match decEqList and and', decEqList or or', decEqOption not not',
        (inferInstance : Decidable (fields = fields')) with
    | isTrue h₁, isTrue h₂, isTrue h₃, isTrue h₄ => isTrue (by rw [h₁, h₂, h₃, h₄])
    | isFalse h, _, _, _ => isFalse (by simp [h])
    | _, isFalse h, _, _ => isFalse (by simp [h])
    | _, _, isFalse h, _ => isFalse (by simp [h])
    | _, _, _, isFalse h => isFalse (by simp [h])

def decEqList : (a b : List Filter) → Decidable (a = b)
  | [], [] => isTrue rfl
  | a :: as, b :: bs =>
    match decEq a b, decEqList as bs with
    | isTrue h, isTrue h' => isTrue (by rw [h, h'])
    | isFalse h, _ => isFalse (by simp [h])
    | _, isFalse h => isFalse (by simp [h])
  | [], _ :: _ | _ :: _, [] => isFalse (by simp)

def decEqOption : (a b : Option Filter) → Decidable (a = b)
  | none, none => isTrue rfl
  | some a, some b =>
    match decEq a b with
    | isTrue h => isTrue (by rw [h])
    | isFalse h => isFalse (by simp [h])
  | none, some _ | some _, none => isFalse (by simp)

end

instance : DecidableEq Filter := decEq

instance : Inhabited Filter := ⟨{}⟩

/-! ## §2 Construction -/

def isEmpty (f : Filter) : Bool :=
  f.and.isEmpty && f.or.isEmpty && f.not.isNone && f.fields.isEmpty

/-- The filter with these constraints on one field, in place of any others. -/
def withField (f : Filter) (path : String) (c : Constraints) : Filter :=
  { f with fields := f.fields.insert path c }

/-- The conjunction of filters. -/
def allOf (filters : List Filter) : Filter :=
  { and := filters }

/-- The disjunction of filters. -/
def anyOf (filters : List Filter) : Filter :=
  { or := filters }

def negate (f : Filter) : Filter :=
  { not := some f }

/-- The conjunction of a caller's filter with an additional one, which comes first. An empty side
    leaves the other as it is. -/
def merge (caller additional : Filter) : Filter :=
  if caller.isEmpty then additional
  else if additional.isEmpty then caller
  else allOf [additional, caller]

/-! ## §3 Visiting the fields -/

mutual

/-- The constrained fields of the tree in visiting order. -/
def walk : Filter → List (String × Constraints)
  | ⟨and, or, not, fields⟩ => fields.entries ++ walkAll and ++ walkAll or ++ walkOption not

/-- The constrained fields of several trees, one tree after another. -/
def walkAll : List Filter → List (String × Constraints)
  | [] => []
  | f :: rest => f.walk ++ walkAll rest

def walkOption : Option Filter → List (String × Constraints)
  | none => []
  | some f => f.walk

end

/-- Several trees are visited one after another. -/
theorem walkAll_eq_flatMap (fs : List Filter) : walkAll fs = fs.flatMap walk := by
  induction fs with
  | nil => rfl
  | cons f rest ih => rw [walkAll, ih, List.flatMap_cons]

/-- The first segment of a path that has several. -/
def relationOfPath? (path : String) : Option String :=
  match Text.split '.' path.toList with
  | relation :: _ :: _ => some (String.ofList relation)
  | _ => none

/-- The relations that the filter's paths lead into, in increasing order: the first segments of
    the dotted paths. -/
def relations (f : Filter) : List String :=
  -- A map holds each name once and in order.
  (KeyMap.ofList ((f.walk.filterMap fun e => relationOfPath? e.1).map fun r => (r, ()))).keys

end Filter

end ListQuery
