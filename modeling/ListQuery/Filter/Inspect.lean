import ListQuery.Filter.Builder
import ListQuery.Json.Printer
import ListQuery.Text.Quoted

/-!
# Inspecting builders

For diagnostics, a builder shows the whole structure of its filter on one line: every record with
its name and all its members in declaration order, optional members as `Some(…)` or `None`,
sequences in brackets, maps in braces, and texts quoted. A JSON value shows its kind and its
content.
-/

namespace ListQuery

open Json (Value)

/-! ## §1 Shapes -/

namespace Inspect

def record (name : String) (members : List (String × String)) : String :=
  name ++ " \x7b " ++ ", ".intercalate (members.map fun (k, shown) => k ++ ": " ++ shown) ++ " \x7d"

def sequence (shown : List String) : String :=
  "[" ++ ", ".intercalate shown ++ "]"

def map (entries : List (String × String)) : String :=
  let members := entries.map fun (k, shown) => Text.quoted k ++ ": " ++ shown
  "\x7b" ++ ", ".intercalate members ++ "\x7d"

def optional {α : Type} (shown : α → String) : Option α → String
  | none => "None"
  | some a => "Some(" ++ shown a ++ ")"

def truth (b : Bool) : String :=
  if b then "true" else "false"

/-! ## §2 Values -/

mutual

def value : Value → String
  | .null => "Null"
  | .bool b => "Bool(" ++ truth b ++ ")"
  | .number n => "Number(" ++ String.ofList (Json.renderNumber n) ++ ")"
  | .string s => "String(" ++ Text.quoted s ++ ")"
  | .array items => "Array " ++ sequence (values items)
  | .object members => "Object " ++ map (memberTexts members)

def values : List Value → List String
  | [] => []
  | v :: rest => value v :: values rest

def memberTexts : List (String × Value) → List (String × String)
  | [] => []
  | (k, v) :: rest => (k, value v) :: memberTexts rest

end

def range (ends : Value × Value) : String :=
  "(" ++ value ends.1 ++ ", " ++ value ends.2 ++ ")"

end Inspect

/-! ## §3 Filters and builders -/

open Inspect in
def Constraints.inspect (c : Constraints) : String :=
  record "FieldExpr" [
    ("eq", optional value c.eq),
    ("ne", optional value c.ne),
    ("gt", optional value c.gt),
    ("gte", optional value c.gte),
    ("lt", optional value c.lt),
    ("lte", optional value c.lte),
    ("in_list", optional (fun vs => sequence (values vs)) c.oneOf),
    ("nin_list", optional (fun vs => sequence (values vs)) c.noneOf),
    ("like", optional Text.quoted c.like),
    ("ilike", optional Text.quoted c.ilike),
    ("between", optional range c.between),
    ("exists", optional truth c.present),
    ("is_null", optional truth c.null)]

namespace Filter

mutual

def inspect : Filter → String
  | ⟨and, or, not, fields⟩ => Inspect.record "Filter" [
      ("and", Inspect.sequence (inspectAll and)),
      ("or", Inspect.sequence (inspectAll or)),
      ("not", inspectOption not),
      ("fields", Inspect.map (fields.entries.map fun e => (e.1, e.2.inspect)))]

def inspectAll : List Filter → List String
  | [] => []
  | f :: rest => f.inspect :: inspectAll rest

def inspectOption : Option Filter → String
  | none => "None"
  | some f => "Some(" ++ f.inspect ++ ")"

end

end Filter

def Field.inspect {ρ : Type} (field : Field ρ) : String :=
  "Field(" ++ Text.quoted field.path ++ ")"

def FilterBuilder.inspect {ρ : Type} (b : FilterBuilder ρ) : String :=
  Inspect.record "FilterBuilder" [("filter", b.filter.inspect)]

end ListQuery
