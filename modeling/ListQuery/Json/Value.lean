import ListQuery.Decimal.Binary64
import ListQuery.KeyMap

/-!
# JSON values

A number is either an exact integer from `-2^63` to `2^64 - 1` or a finite binary floating point
number; the two never compare equal. An object is the list of its members. As a *value*, the form
in which texts are read, an object lists its members in increasing key order and holds no key
twice (`Value.Canonical`); as a *document*, the form in which records are written, it lists them in
the order of the record, and a key may then stand twice.
-/

namespace ListQuery.Json

open ListQuery.Decimal
open Nat (pow)

/-! ## §1 Numbers -/

/-- Whether an integer can be held exactly. -/
def IntegerRange (n : Int) : Prop :=
  -pow 2 63 ≤ n ∧ n < pow 2 64

instance (n : Int) : Decidable (IntegerRange n) :=
  inferInstanceAs (Decidable (_ ∧ _))

/-- A JSON number. -/
inductive Number where
  /-- An exact integer. -/
  | integer (n : Int) (inRange : IntegerRange n)
  /-- A floating point number, also where it has an integral value. -/
  | float (x : Binary64)
  deriving DecidableEq

/-! ## §2 Values -/

/-- A JSON value or document. -/
inductive Value where
  | null
  | bool (b : Bool)
  | number (n : Number)
  | string (s : String)
  | array (items : List Value)
  | object (members : List (String × Value))

namespace Value

mutual

def decEq : (a b : Value) → Decidable (a = b)
  | .null, .null => isTrue rfl
  | .bool a, .bool b =>
    if h : a = b then isTrue (h ▸ rfl) else isFalse (by simpa using h)
  | .number a, .number b =>
    if h : a = b then isTrue (h ▸ rfl) else isFalse (by simpa using h)
  | .string a, .string b =>
    if h : a = b then isTrue (h ▸ rfl) else isFalse (by simpa using h)
  | .array a, .array b =>
    match decEqItems a b with
    | isTrue h => isTrue (h ▸ rfl)
    | isFalse h => isFalse (by simpa using h)
  | .object a, .object b =>
    match decEqMembers a b with
    | isTrue h => isTrue (h ▸ rfl)
    | isFalse h => isFalse (by simpa using h)
  | .null, .bool _ | .null, .number _ | .null, .string _ | .null, .array _ | .null, .object _
  | .bool _, .null | .bool _, .number _ | .bool _, .string _ | .bool _, .array _
  | .bool _, .object _ | .number _, .null | .number _, .bool _ | .number _, .string _
  | .number _, .array _ | .number _, .object _ | .string _, .null | .string _, .bool _
  | .string _, .number _ | .string _, .array _ | .string _, .object _ | .array _, .null
  | .array _, .bool _ | .array _, .number _ | .array _, .string _ | .array _, .object _
  | .object _, .null | .object _, .bool _ | .object _, .number _ | .object _, .string _
  | .object _, .array _ => isFalse (by simp)

def decEqItems : (a b : List Value) → Decidable (a = b)
  | [], [] => isTrue rfl
  | a :: as, b :: bs =>
    match decEq a b, decEqItems as bs with
    | isTrue h, isTrue h' => isTrue (by rw [h, h'])
    | isFalse h, _ => isFalse (by simp [h])
    | _, isFalse h => isFalse (by simp [h])
  | [], _ :: _ | _ :: _, [] => isFalse (by simp)

def decEqMembers : (a b : List (String × Value)) → Decidable (a = b)
  | [], [] => isTrue rfl
  | (k, a) :: as, (l, b) :: bs =>
    match instDecidableEqString k l, decEq a b, decEqMembers as bs with
    | isTrue h, isTrue h', isTrue h'' => isTrue (by rw [h, h', h''])
    | isFalse h, _, _ => isFalse (by simp [h])
    | _, isFalse h, _ => isFalse (by simp [h])
    | _, _, isFalse h => isFalse (by simp [h])
  | [], _ :: _ | _ :: _, [] => isFalse (by simp)

end

instance : DecidableEq Value := decEq

instance : Inhabited Value := ⟨.null⟩

/-- The value of an integer in range; integers out of range have none. -/
def ofInt? (n : Int) : Option Value :=
  if h : IntegerRange n then some (.number (.integer n h)) else none

/-- A 64-bit integer as a value. -/
def ofInt64 (n : Int64) : Value :=
  .number (.integer n.toInt
    ⟨n.le_toInt, Int.lt_trans n.toInt_lt (by decide)⟩)

def isObject : Value → Bool
  | .object _ => true
  | _ => false

/-! ## §3 Kinds -/

end Value

/-- The six kinds of values. -/
inductive Kind where
  | null
  | boolean
  | number
  | string
  | array
  | object
  deriving DecidableEq, Repr

def Kind.name : Kind → String
  | .null => "null"
  | .boolean => "boolean"
  | .number => "number"
  | .string => "string"
  | .array => "array"
  | .object => "object"

namespace Value

def kind : Value → Kind
  | .null => .null
  | .bool _ => .boolean
  | .number _ => .number
  | .string _ => .string
  | .array _ => .array
  | .object _ => .object

/-! ## §4 Members of an object -/

/-- The value of the last member with this key. -/
def member? (key : String) : List (String × Value) → Option Value
  | [] => none
  | (k, v) :: rest =>
    match member? key rest with
    | some later => some later
    | none => if k = key then some v else none

mutual

/-- The value that a document denotes: in every object the members stand in key order, and of
    the members with one key the last one stays. -/
def canonical : Value → Value
  | .array items => .array (canonicalItems items)
  | .object members => .object (canonicalMembers members [])
  | v => v

def canonicalItems : List Value → List Value
  | [] => []
  | v :: rest => v.canonical :: canonicalItems rest

/-- The members entered one after another, in canonical form, into a sorted list. -/
def canonicalMembers : List (String × Value) → List (String × Value) → List (String × Value)
  | [], entered => entered
  | (k, v) :: rest, entered => canonicalMembers rest (insertKey k v.canonical entered)

end

/-- A value proper: at every depth the members of objects stand in key order without repetition. -/
def Canonical (v : Value) : Prop :=
  v.canonical = v

instance (v : Value) : Decidable v.Canonical :=
  inferInstanceAs (Decidable (_ = _))

end Value

end ListQuery.Json
