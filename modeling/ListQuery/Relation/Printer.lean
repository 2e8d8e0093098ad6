import ListQuery.Json.Printer
import ListQuery.Relation.Basic
import ListQuery.Request.Wire

/-!
# Writing relations

A relation is written as its name, followed by a block if it has a request or relations inside it.
The block holds the JSON text of the request first, and then the relations; commas stand in between.
Nothing else is written, so the text has no blanks of its own.
-/

namespace ListQuery.Relation

open Json (Value)

mutual

/-- The text of a relation. -/
def render : Relation → List Char
  | ⟨name, query, children⟩ =>
    if query.isNone && children.isEmpty then name.toList
    else
      -- The request comes first, so a block that starts with a brace has one.
      let parts := (query.map fun q => q.document.render).toList ++ renderAll children
      name.toList ++ '\x7b' :: Text.join [','] parts ++ ['\x7d']

def renderAll : List Relation → List (List Char)
  | [] => []
  | r :: rest => r.render :: renderAll rest

end

/-- Relations are written one by one. -/
theorem renderAll_eq_map (rs : List Relation) : renderAll rs = rs.map render := by
  induction rs with
  | nil => rfl
  | cons r rest ih => rw [renderAll, ih, List.map_cons]

def text (r : Relation) : String :=
  String.ofList r.render

/-- The relation list that several relations make up. It starts with the first text that is not
    empty, since only text is separated from what follows. -/
def renderList (rs : List Relation) : List Char :=
  Text.join [','] ((renderAll rs).dropWhile List.isEmpty)

def listText (rs : List Relation) : String :=
  String.ofList (renderList rs)

mutual

/-- The JSON form of a relation. -/
def document : Relation → Value
  | ⟨name, query, children⟩ => .object (
      ("name", .string name) ::
      (query.map fun q => ("query", q.document)).toList ++
      memberUnless children.isEmpty "children" (.array (documents children)))

def documents : List Relation → List Value
  | [] => []
  | r :: rest => r.document :: documents rest

end

end ListQuery.Relation
