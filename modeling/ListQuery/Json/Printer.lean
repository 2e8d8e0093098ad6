import ListQuery.Json.Value
import ListQuery.Json.Literal
import ListQuery.Decimal.Shortest

/-!
# Printing JSON

Documents print compactly, without any blank, and members print in the order in which they stand.
A floating point number prints with its shortest digits: positionally, with at least one digit on
both sides of the point, while the exponent of its first digit lies between -5 and 15, and with an
exponent otherwise, which always has a sign (`1e+16`, `1.5e-7`).

The indented form gives every item and member a line of its own, two blanks deeper than its
container; an empty container stays on one line.
-/

namespace ListQuery.Json

open ListQuery.Decimal

/-! ## §1 Numbers -/

def digitsOf (n : Nat) : List Char :=
  Nat.toDigits 10 n

def renderInt (n : Int) : List Char :=
  if n < 0 then '-' :: digitsOf n.natAbs else digitsOf n.natAbs

/-- The exponent behind the digits of a number. -/
def renderExponent (n : Int) : List Char :=
  'e' :: (if n < 0 then '-' else '+') :: digitsOf n.natAbs

/-- The text of a decimal, without sign. -/
def renderDecimal (d : Scientific) : List Char :=
  let digits := digitsOf d.digits
  let point := d.exponent + digits.length
  if 0 ≤ d.exponent ∧ point ≤ 16 then
    -- An integral value.
    digits ++ List.replicate d.exponent.toNat '0' ++ ['.', '0']
  else if 0 < point ∧ point ≤ 16 then
    -- The point falls among the digits.
    digits.take point.toNat ++ ['.'] ++ digits.drop point.toNat
  else if -5 < point ∧ point ≤ 0 then
    -- The point stands before all digits.
    ['0', '.'] ++ List.replicate (-point).toNat '0' ++ digits
  else
    match digits with
    -- One digit is written without a point.
    | [digit] => digit :: renderExponent (point - 1)
    | first :: others => first :: '.' :: others ++ renderExponent (point - 1)
    | [] => []

def renderFloat (x : Binary64) : List Char :=
  let size := renderDecimal (shortest x.rank)
  if x.negative then '-' :: size else size

def renderNumber : Number → List Char
  | .integer n _ => renderInt n
  | .float x => renderFloat x

/-! ## §2 Documents -/

namespace Value

mutual

/-- The compact text of a document. -/
def render : Value → List Char
  | .null => ['n', 'u', 'l', 'l']
  | .bool true => ['t', 'r', 'u', 'e']
  | .bool false => ['f', 'a', 'l', 's', 'e']
  | .number n => renderNumber n
  | .string s => literal s
  | .array items => '[' :: renderItems items ++ [']']
  | .object members => '{' :: renderMembers members ++ ['}']

def renderItems : List Value → List Char
  | [] => []
  | [v] => v.render
  | v :: rest => v.render ++ ',' :: renderItems rest

def renderMembers : List (String × Value) → List Char
  | [] => []
  | [(k, v)] => literal k ++ ':' :: v.render
  | (k, v) :: rest => literal k ++ ':' :: v.render ++ ',' :: renderMembers rest

end

def text (v : Value) : String :=
  String.ofList v.render

/-! ## §3 The indented form -/

/-- A line break followed by the blanks of an indentation level. -/
def lineBreak (level : Nat) : List Char :=
  '\n' :: List.replicate (2 * level) ' '

mutual

/-- The indented text of a document that stands at an indentation level. -/
def renderIndented (level : Nat) : Value → List Char
  | .array [] => ['[', ']']
  | .array items => '[' :: renderIndentedItems (level + 1) items ++ lineBreak level ++ [']']
  | .object [] => ['{', '}']
  | .object members =>
    '{' :: renderIndentedMembers (level + 1) members ++ lineBreak level ++ ['}']
  | v => v.render

def renderIndentedItems (level : Nat) : List Value → List Char
  | [] => []
  | [v] => lineBreak level ++ v.renderIndented level
  | v :: rest =>
    lineBreak level ++ v.renderIndented level ++ ',' :: renderIndentedItems level rest

def renderIndentedMembers (level : Nat) : List (String × Value) → List Char
  | [] => []
  | [(k, v)] => lineBreak level ++ literal k ++ [':', ' '] ++ v.renderIndented level
  | (k, v) :: rest =>
    lineBreak level ++ literal k ++ [':', ' '] ++ v.renderIndented level ++
      ',' :: renderIndentedMembers level rest

end

def indentedText (v : Value) : String :=
  String.ofList (v.renderIndented 0)

end Value

end ListQuery.Json
