import ListQuery.Json.Reader

/-!
# Reading records

A record is written as an object whose members are its fields, or as an array of the fields in
declaration order. In an object the fields may stand in any order, but none of them twice, and
members that are no field are passed over. In an array the fields at the end may be missing, and
nothing may follow the last one.

The fields update a draft of the record as they are read; whether a required field was there is
asked of the finished draft.
-/

namespace ListQuery.Json

open Nat (pow)

variable {ε α σ : Type}

/-! ## §1 Readers of field values -/

def string : Reader ε String := fun s =>
  match skipSpace s with
  | '"' :: rest => orMalformed (readString rest)
  | _ => malformed

def boolean : Reader ε Bool := fun s =>
  match skipSpace s with
  | 't' :: rest => do .ok (true, ← word ['r', 'u', 'e'] rest)
  | 'f' :: rest => do .ok (false, ← word ['a', 'l', 's', 'e'] rest)
  | _ => malformed

/-- An exact integer from `low` up to but not including `high`. -/
def integerFrom (low high : Int) : Reader ε Int := fun s => do
  match ← number (skipSpace s) with
  | (.integer n _, rest) => if low ≤ n ∧ n < high then .ok (n, rest) else malformed
  -- Not even a floating point number of an integral value.
  | (.float _, _) => malformed

def int64 : Reader ε Int64 := fun s => do
  let (n, rest) ← integerFrom (-pow 2 63) (pow 2 63) s
  .ok (Int64.ofInt n, rest)

def natural : Reader ε Nat := fun s => do
  let (n, rest) ← integerFrom 0 (pow 2 64) s
  .ok (n.toNat, rest)

/-- Either `null` or what the reader reads. -/
def nullable (reader : Reader ε α) : Reader ε (Option α) := fun s =>
  match skipSpace s with
  | 'n' :: rest => do .ok (none, ← word ['u', 'l', 'l'] rest)
  | s => do
    let (a, rest) ← reader s
    .ok (some a, rest)

/-- An array at a depth, its items one level deeper. -/
def array (item : Nat → Reader ε α) : (depth : Nat) → Reader ε (List α)
  | 0, _ => malformed
  | depth + 1, s =>
    match skipSpace s with
    | '[' :: rest => items (item depth) rest
    | _ => malformed

/-- An array of exactly two items. -/
def pair (item : Nat → Reader ε α) (depth : Nat) : Reader ε (α × α) := fun s => do
  match ← array item depth s with
  | ([a, b], rest) => .ok ((a, b), rest)
  | _ => malformed

/-! ## §2 Records -/

/-- A field of a record: its key, and how its value at some depth updates the draft. -/
structure RecordField (ε σ : Type) where
  key : String
  read : (depth : Nat) → σ → Reader ε σ

/-- The field whose value a reader reads and `set` enters into the draft. -/
def RecordField.of (key : String) (reader : Nat → Reader ε α) (set : σ → α → σ) : RecordField ε σ :=
  ⟨key, fun depth draft s => do
    let (a, rest) ← reader depth s
    .ok (set draft a, rest)⟩

/-- One member of a record written as an object. The state is the draft and the keys of the
    fields that were read. -/
def member (fields : List (RecordField ε σ)) (depth : Nat) :
    σ × List String → Reader ε (σ × List String) := fun (draft, seen) s => do
  let (k, s) ← key s
  match fields.find? (·.key = k) with
  | some field =>
    -- A field must not come twice, while any other member may.
    if k ∈ seen then malformed
    else
      let (draft, s) ← field.read depth draft s
      .ok ((draft, k :: seen), s)
  | none =>
    let (_, s) ← skip s
    .ok ((draft, seen), s)

/-- One item of a record written as an array. The state is the draft and the fields to come. -/
def position (depth : Nat) :
    σ × List (RecordField ε σ) → Reader ε (σ × List (RecordField ε σ))
  -- There is one item too many.
  | (_, []), _ => malformed
  | (draft, field :: coming), s => do
    let (draft, s) ← field.read depth draft s
    .ok ((draft, coming), s)

/-- A record at a depth, starting from a draft. -/
def record (fields : List (RecordField ε σ)) (draft : σ) : (depth : Nat) → Reader ε σ
  | 0, _ => malformed
  | depth + 1, s =>
    match skipSpace s with
    | '{' :: rest => do
      let ((draft, _), rest) ← separated '}' (member fields depth) (draft, []) rest
      .ok (draft, rest)
    | '[' :: rest => do
      let ((draft, _), rest) ← separated ']' (position depth) (draft, fields) rest
      .ok (draft, rest)
    | _ => malformed

/-- A record whose draft has to be complete. -/
def completeRecord (fields : List (RecordField ε σ)) (draft : σ) (complete : σ → Option α)
    (depth : Nat) : Reader ε α := fun s => do
  let (draft, rest) ← record fields draft depth s
  let a ← orMalformed (complete draft)
  .ok (a, rest)

end ListQuery.Json
