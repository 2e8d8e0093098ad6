import ListQuery.Request.Basic

/-!
# Relations to load

A relation names records to load along with the rows of a list. It can carry a request that picks
among these records, and further relations that start from them. `Relation.paths` lists the dotted
paths from the outermost relation to every one inside it.
-/

namespace ListQuery

/-- A relation to load. -/
structure Relation where
  name : String
  /-- What to pick among the related records. -/
  query : Option Request := none
  /-- The relations of the related records. -/
  children : List Relation := []

namespace Relation

instance : Inhabited Relation := ⟨{ name := "" }⟩

mutual

def decEq : (a b : Relation) → Decidable (a = b)
  | ⟨name, query, children⟩, ⟨name', query', children'⟩ =>
    match (inferInstance : Decidable (name = name')), (inferInstance : Decidable (query = query')),
        decEqList children children' with
    | isTrue h₁, isTrue h₂, isTrue h₃ => isTrue (by rw [h₁, h₂, h₃])
    | isFalse h, _, _ => isFalse (by simp [h])
    | _, isFalse h, _ => isFalse (by simp [h])
    | _, _, isFalse h => isFalse (by simp [h])

def decEqList : (a b : List Relation) → Decidable (a = b)
  | [], [] => isTrue rfl
  | a :: as, b :: bs =>
    match decEq a b, decEqList as bs with
    | isTrue h, isTrue h' => isTrue (by rw [h, h'])
    | isFalse h, _ => isFalse (by simp [h])
    | _, isFalse h => isFalse (by simp [h])
  | [], _ :: _ | _ :: _, [] => isFalse (by simp)

end

instance : DecidableEq Relation := decEq

/-! ## §1 Paths -/

/-- The path of a relation below the path of another one, if there is one. -/
def pathBelow : (outer : Option String) → (name : String) → String
  | none, name => name
  | some outer, name => outer ++ "." ++ name

mutual

/-- The paths of a relation and all inside it, each one before those below it. -/
def pathsBelow (outer : Option String) : Relation → List String
  | ⟨name, _, children⟩ =>
    let path := pathBelow outer name
    path :: pathsOfAllBelow (some path) children

def pathsOfAllBelow (outer : Option String) : List Relation → List String
  | [] => []
  | r :: rest => pathsBelow outer r ++ pathsOfAllBelow outer rest

end

/-- Several trees give their paths one after another. -/
theorem pathsOfAllBelow_eq_flatMap (outer : Option String) (rs : List Relation) :
    pathsOfAllBelow outer rs = rs.flatMap (pathsBelow outer) := by
  induction rs with
  | nil => rfl
  | cons r rest ih => rw [pathsOfAllBelow, ih, List.flatMap_cons]

def paths (r : Relation) : List String :=
  pathsBelow none r

def pathsOfAll (rs : List Relation) : List String :=
  rs.flatMap paths

/-! ## §2 Size -/

mutual

/-- The number of relations in a tree. -/
def count : Relation → Nat
  | ⟨_, _, children⟩ => 1 + countAll children

def countAll : List Relation → Nat
  | [] => 0
  | r :: rest => r.count + countAll rest

end

end Relation

end ListQuery
