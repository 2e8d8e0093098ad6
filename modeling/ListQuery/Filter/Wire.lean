import ListQuery.Filter.Basic
import ListQuery.Json.Record

/-!
# The wire form of filters

On the wire a filter is an object. The keys `$and`, `$or` and `$not` hold its combinators, and every
other key is a field path with the *operand* of that field: an object of operators
(`{"$gte": 18, "$lt": 65}`), or any other value, which the field then has to equal.

- An object is read as operators if it holds at least one of them, every operator in it has an
  operand of its shape, and something is constrained; otherwise it is a value to compare with.
  Unknown keys beside operators are passed over.
- A comparison operand may be any value, `null` included. For the other operators `null` is the
  same as an absent key.
- Of the combinators, `$and` is judged before `$not` and `$not` before `$or`. A `null` combinator
  is an absent one.

Writing goes the other way. `Filter.toValue` is the value with its keys in order, where a field
named like a combinator takes that combinator's place; `Filter.document` lists the combinators
first and then the fields, and such a name then stands twice.
-/

namespace ListQuery

open Json (Value Kind RecordField Reader Fault)

/-! ## §1 Operators -/

namespace Constraint

/-- The wire key of the constraint's operator. -/
def key : Constraint → String
  | .eq _ => "$eq"
  | .ne _ => "$ne"
  | .gt _ => "$gt"
  | .gte _ => "$gte"
  | .lt _ => "$lt"
  | .lte _ => "$lte"
  | .oneOf _ => "$in"
  | .noneOf _ => "$nin"
  | .like _ => "$like"
  | .ilike _ => "$ilike"
  | .between _ _ => "$between"
  | .present _ => "$exists"
  | .null _ => "$null"

/-- The wire form of the constraint's operand. -/
def operand : Constraint → Value
  | .eq v | .ne v | .gt v | .gte v | .lt v | .lte v => v
  | .oneOf vs | .noneOf vs => .array vs
  | .like p | .ilike p => .string p
  | .between low high => .array [low, high]
  | .present b | .null b => .bool b

end Constraint

namespace Constraints

/-! ## §2 Writing constraints -/

/-- The operator object with its keys in order. -/
def operators (c : Constraints) : List (String × Value) :=
  c.toList.foldl (fun members k => insertKey k.key k.operand members) []

/-- The operand of a field: a plain equality with anything but an object is the bare value. -/
def toOperand (c : Constraints) : Value :=
  match c.eq with
  -- A bare object would be read as operators, so an object stays below its operator.
  | some v => if c.isPlainEquality && !v.isObject then v else .object c.operators
  | none => .object c.operators

/-! ## §3 Reading constraints from a value -/

def listOperand? : Value → Option (List Value)
  | .array items => some items
  | _ => none

def patternOperand? : Value → Option String
  | .string s => some s
  | _ => none

def rangeOperand? : Value → Option (Value × Value)
  | .array [low, high] => some (low, high)
  | _ => none

def truthOperand? : Value → Option Bool
  | .bool b => some b
  | _ => none

/-- The operand under a key where `null` is the same as no operand; `none` if there is one of
    another shape. -/
def shaped? {α : Type} (shape : Value → Option α) (key : String)
    (members : List (String × Value)) : Option (Option α) :=
  match Value.member? key members with
  | none => some none
  | some .null => some none
  | some v => (shape v).map some

/-- The constraints that an operator object sets; `none` if an operand has the wrong shape. -/
def ofMembers? (members : List (String × Value)) : Option Constraints := do
  let oneOf ← shaped? listOperand? "$in" members
  let noneOf ← shaped? listOperand? "$nin" members
  let like ← shaped? patternOperand? "$like" members
  let ilike ← shaped? patternOperand? "$ilike" members
  let between ← shaped? rangeOperand? "$between" members
  let present ← shaped? truthOperand? "$exists" members
  let null ← shaped? truthOperand? "$null" members
  return dropVacuous {
    eq := Value.member? "$eq" members
    ne := Value.member? "$ne" members
    gt := Value.member? "$gt" members
    gte := Value.member? "$gte" members
    lt := Value.member? "$lt" members
    lte := Value.member? "$lte" members
    oneOf, noneOf, like, ilike, between, present, null }

/-- The constraints that the operand of a field stands for. -/
def ofOperand (v : Value) : Constraints :=
  match v with
  | .object members =>
    match ofMembers? members with
    -- An object that says nothing as operators is a value to compare with.
    | some c => if c.isEmpty then equalTo v else c
    | none => equalTo v
  | v => equalTo v

/-! ## §4 Reading constraints from a text -/

/-- A field for an operator whose operand may be any value. -/
def anyField {ε : Type} (k : String) (set : Constraints → Value → Constraints) :
    RecordField ε Constraints :=
  .of k Json.value set

/-- A field for an operator whose operand has a shape, `null` being no operand. -/
def shapedField {ε α : Type} (k : String) (reader : Nat → Reader ε α)
    (set : Constraints → Option α → Constraints) : RecordField ε Constraints :=
  .of k (fun depth => Json.nullable (reader depth)) set

/-- The fields of an operator record, in the order of the operators. -/
def recordFields {ε : Type} : List (RecordField ε Constraints) := [
  anyField "$eq" fun c v => { c with eq := some v },
  anyField "$ne" fun c v => { c with ne := some v },
  anyField "$gt" fun c v => { c with gt := some v },
  anyField "$gte" fun c v => { c with gte := some v },
  anyField "$lt" fun c v => { c with lt := some v },
  anyField "$lte" fun c v => { c with lte := some v },
  shapedField "$in" (Json.array Json.value) fun c vs => { c with oneOf := vs },
  shapedField "$nin" (Json.array Json.value) fun c vs => { c with noneOf := vs },
  shapedField "$like" (fun _ => Json.string) fun c p => { c with like := p },
  shapedField "$ilike" (fun _ => Json.string) fun c p => { c with ilike := p },
  shapedField "$between" (Json.pair Json.value) fun c range => { c with between := range },
  shapedField "$exists" (fun _ => Json.boolean) fun c b => { c with present := b },
  shapedField "$null" (fun _ => Json.boolean) fun c b => { c with null := b }]

def reader {ε : Type} (depth : Nat) : Reader ε Constraints := fun s => do
  let (c, rest) ← Json.record recordFields {} depth s
  .ok (c.dropVacuous, rest)

end Constraints

/-! ## §5 Writing filters -/

/-- The three combinators of a filter. -/
inductive Combinator where
  | and
  | or
  | not
  deriving DecidableEq, Repr

def Combinator.key : Combinator → String
  | .and => "$and"
  | .or => "$or"
  | .not => "$not"

namespace Filter

mutual

/-- The wire form of a filter as a value. -/
def toValue : Filter → Value
  | ⟨and, or, not, fields⟩ =>
    let members := if and.isEmpty then [] else [("$and", .array (toValues and))]
    let members := if or.isEmpty then members else insertKey "$or" (.array (toValues or)) members
    let members := match not with
      | none => members
      | some f => insertKey "$not" f.toValue members
    -- The fields come last: one that is named like a combinator takes its place.
    .object (fields.entries.foldl (fun members e => insertKey e.1 e.2.toOperand members) members)

def toValues : List Filter → List Value
  | [] => []
  | f :: rest => f.toValue :: toValues rest

end

/-- The values of filters are written one by one. -/
theorem toValues_eq_map (fs : List Filter) : toValues fs = fs.map toValue := by
  induction fs with
  | nil => rfl
  | cons f rest ih => rw [toValues, ih, List.map_cons]

mutual

/-- The wire form of a filter as a document: combinators first, then fields. -/
def document : Filter → Value
  | ⟨and, or, not, fields⟩ => .object (
      (if and.isEmpty then [] else [("$and", .array (documents and))]) ++
      (if or.isEmpty then [] else [("$or", .array (documents or))]) ++
      (match not with
        | none => []
        | some f => [("$not", f.document)]) ++
      fields.entries.map fun e => (e.1, e.2.toOperand))

def documents : List Filter → List Value
  | [] => []
  | f :: rest => f.document :: documents rest

end

/-- The documents of filters are written one by one. -/
theorem documents_eq_map (fs : List Filter) : documents fs = fs.map document := by
  induction fs with
  | nil => rfl
  | cons f rest ih => rw [documents, ih, List.map_cons]

end Filter

/-! ## §6 Errors -/

/-- Why a value is no filter. -/
inductive FilterError where
  /-- It is not an object. -/
  | notObject (found : Kind)
  /-- The combinator does not hold a list. -/
  | notList (combinator : Combinator) (found : Kind)
  /-- A filter under the combinator is none. -/
  | inside (combinator : Combinator) (cause : FilterError)
  deriving DecidableEq

def FilterError.message : FilterError → String
  | .notObject found => "Expected a JSON object for filter, got " ++ found.name
  | .notList combinator found =>
    "Invalid value for " ++ combinator.key ++ ": expected an array of filters, got " ++ found.name
  | .inside combinator cause =>
    "Invalid value for " ++ combinator.key ++ ": " ++ cause.message

/-- Why a text is no filter. -/
inductive DecodeError where
  /-- A JSON text was not read. -/
  | invalidJson (fault : Fault FilterError)
  /-- The value is no filter. -/
  | notFilter (error : FilterError)
  /-- A query parameter was not read. -/
  | invalidParameter (name : String) (fault : Fault FilterError)
  deriving DecidableEq

/-- The reason within a message. A malformed text has no reason of its own, and a star stands in
    its place. -/
def reason (fault : Fault FilterError) : String :=
  match fault with
  | .malformed => "*"
  | .refused error => error.message

def DecodeError.message : DecodeError → String
  | .invalidJson fault => "Invalid JSON: " ++ reason fault
  | .notFilter error => error.message
  | .invalidParameter name fault => "Invalid query parameter " ++ name ++ ": " ++ reason fault

/-! ## §7 Reading filters -/

namespace Filter

/-- The parts of a filter as they are found among the members of an object. -/
structure Draft where
  and : Except FilterError (List Filter) := .ok []
  not : Except FilterError (Option Filter) := .ok none
  or : Except FilterError (List Filter) := .ok []
  fields : KeyMap Constraints := ∅

/-- The filter of a draft, or the error of the first combinator that has one. -/
def Draft.finish (d : Draft) : Except FilterError Filter := do
  -- The order in which the combinators are judged.
  let and ← d.and
  let not ← d.not
  let or ← d.or
  return { and, or, not, fields := d.fields }

mutual

/-- The filter that a value writes. -/
def ofValue : Value → Except FilterError Filter
  | .object members => (ofMembers {} members).finish
  | v => .error (.notObject v.kind)
  termination_by structural v => v

/-- Enter the members of an object into a draft, later ones in place of earlier ones. -/
def ofMembers (d : Draft) : List (String × Value) → Draft
  | [] => d
  | (k, v) :: rest =>
    ofMembers
      (if k = "$and" then { d with and := ofList .and v }
      else if k = "$or" then { d with or := ofList .or v }
      else if k = "$not" then
        { d with not :=
            if v = .null then .ok none
            else ((ofValue v).mapError (.inside .not)).map some }
      -- Reading a field never fails.
      else { d with fields := d.fields.insert k (Constraints.ofOperand v) })
      rest
  termination_by structural members => members

/-- The filters of a combinator that holds a list. -/
def ofList (combinator : Combinator) : Value → Except FilterError (List Filter)
  | .null => .ok []
  | .array items => (ofItems items).mapError (.inside combinator)
  | v => .error (.notList combinator v.kind)
  termination_by structural v => v

def ofItems : List Value → Except FilterError (List Filter)
  | [] => .ok []
  | v :: rest => do
    let f ← ofValue v
    let fs ← ofItems rest
    return f :: fs
  termination_by structural items => items

end

def reader (depth : Nat) : Reader FilterError Filter := fun s => do
  let (v, rest) ← Json.value depth s
  match ofValue v with
  | .ok f => .ok (f, rest)
  | .error error => .error (.refused error)

/-- The filter that a JSON text writes. -/
def ofJson (text : String) : Except DecodeError Filter :=
  match Json.whole (Json.value Json.depthLimit) text.toList with
  | .error fault => .error (.invalidJson fault)
  | .ok v => (ofValue v).mapError .notFilter

end Filter

end ListQuery
