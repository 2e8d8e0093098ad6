import ListQuery.Condition.Recorder
import ListQuery.Text.Camel

/-!
# References to fields

A path without dots names a column of the recorder's table. A path whose first segment is a declared
relation names a column of the related table, which is called like the path before the last segment
in camel case. Any other path leads into a document column, and its value is a text until it is
cast.
-/

namespace ListQuery

open Json (Value)

/-! ## §1 Quoting -/

/-- An identifier in double quotes, a quote inside it written twice. -/
def quoteIdentifier (name : List Char) : List Char :=
  '"' :: name.flatMap (fun c => if c = '"' then ['"', '"'] else [c]) ++ ['"']

/-! ## §2 References -/

/-- What a path refers to. -/
inductive Reference where
  | column (name : List Char)
  | qualified (table name : List Char)
  /-- A place in a document column. -/
  | document (base : List Char) (keys : List (List Char))
  deriving DecidableEq

namespace Reference

def chars : Reference → List Char
  | .column n => quoteIdentifier n
  | .qualified t n => quoteIdentifier t ++ '.' :: quoteIdentifier n
  | .document base keys =>
    ['('] ++ quoteIdentifier base ++ [' ', '#', '>', '>', ' ', '\'', '{'] ++
      Text.join [','] keys ++ ['}', '\'', ')']

/-- The reference's text. -/
def text (r : Reference) : String :=
  String.ofList r.chars

def isDocument : Reference → Bool
  | .document _ _ => true
  | _ => false

end Reference

/-- The reference that a path stands for. -/
def Recorder.reference (r : Recorder) (path : String) : Reference :=
  match Text.split '.' path.toList with
  | [] => .column []
  | [column] =>
    -- Without a table there is nothing to qualify the column with.
    if r.table.isEmpty then .column column else .qualified r.table.toList column
  | first :: next :: rest =>
    if r.isRelation (String.ofList first) then
      -- The last segment is the column, and the segments before it name the related table.
      let segments := first :: next :: rest
      .qualified (Text.camelPath (Text.join ['.'] segments.dropLast)) (segments.getLastD [])
    else .document first (next :: rest)

/-! ## §3 Casts -/

/-- A reference cast to the type of a sample, if it leads into a document and the sample is a
    number or a truth value; otherwise the reference as it is. -/
def castReference (reference : String) (isDocument : Bool) (sample : Value) : String :=
  if isDocument then
    match sample with
    | .number _ => reference ++ "::numeric"
    | .bool _ => reference ++ "::boolean"
    | _ => reference
  else reference

end ListQuery
