import ListQuery.Json.Value

/-!
# Numerals of JSON texts

A numeral is a sign, whole digits, and optionally fraction digits and an exponent. `readNumeral`
takes the longest numeral off the front of a text; what number it stands for is a second question,
which `Numeral.number?` answers. An integer numeral from `-2^63` to `2^64 - 1` is exact, apart from
`-0`. Every other numeral is floating point.

A floating point number is made from a *significand* of at most 64 bits: digits are taken in while
they fit. A whole digit that does not fit raises the exponent by one, as does every whole digit
after it, and the first fraction digit that does not fit ends the taking of fraction digits.
-/

namespace ListQuery.Json

open ListQuery.Decimal
open Nat (pow)

/-! ## §1 The grammar -/

structure Numeral where
  negative : Bool
  /-- The digits before the point. -/
  whole : List Char
  /-- The digits after the point; empty when there is no point. -/
  fraction : List Char
  /-- Whether the exponent is negative, and its digits. -/
  exponent : Option (Bool × List Char)

/-- The digits at the front of a text and what follows them. -/
def spanDigits (s : List Char) : List Char × List Char :=
  (s.takeWhile Char.isDigit, s.dropWhile Char.isDigit)

/-- The whole part: one zero, or digits that do not begin with zero. -/
def readWhole (s : List Char) : Option (List Char × List Char) :=
  match spanDigits s with
  | ([], _) => none
  -- A zero in front of further digits.
  | ('0' :: _ :: _, _) => none
  | parts => some parts

/-- The fraction part: nothing, or a point and digits. -/
def readFraction : List Char → Option (List Char × List Char)
  | '.' :: s =>
    match spanDigits s with
    | ([], _) => none
    | parts => some parts
  | s => some ([], s)

def readExponentSign : List Char → Bool × List Char
  | '+' :: s => (false, s)
  | '-' :: s => (true, s)
  | s => (false, s)

/-- The exponent part: nothing, or a letter `e`, a sign and digits. -/
def readExponent : List Char → Option (Option (Bool × List Char) × List Char)
  | [] => some (none, [])
  | c :: s =>
    if c = 'e' ∨ c = 'E' then
      let (negative, s) := readExponentSign s
      match spanDigits s with
      | ([], _) => none
      | (digits, rest) => some (some (negative, digits), rest)
    else some (none, c :: s)

def readMinus : List Char → Bool × List Char
  | '-' :: s => (true, s)
  | s => (false, s)

/-- The numeral at the front of a text and what follows it. -/
def readNumeral (s : List Char) : Option (Numeral × List Char) := do
  let (negative, s) := readMinus s
  let (whole, s) ← readWhole s
  let (fraction, s) ← readFraction s
  let (exponent, s) ← readExponent s
  return (⟨negative, whole, fraction, exponent⟩, s)

/-! ## §2 The number -/

def digitValue (c : Char) : Nat :=
  c.toNat - '0'.toNat

def digitsValue (digits : List Char) : Nat :=
  digits.foldl (fun n c => 10 * n + digitValue c) 0

/-- Whether a significand still takes in the digit `d`. -/
def takesDigit (significand d : Nat) : Bool :=
  10 * significand + d < pow 2 64

/-- Take in whole digits; the second number counts those that did not fit. -/
def takeWhole (significand : Nat) : List Char → Nat × Nat
  | [] => (significand, 0)
  | c :: s =>
    if takesDigit significand (digitValue c) then takeWhole (10 * significand + digitValue c) s
    -- From here on every whole digit only counts.
    else (significand, s.length + 1)

/-- Take in fraction digits; the second number counts those taken in. -/
def takeFraction (significand : Nat) : List Char → Nat × Nat
  | [] => (significand, 0)
  | c :: s =>
    if takesDigit significand (digitValue c) then
      let (total, taken) := takeFraction (10 * significand + digitValue c) s
      (total, taken + 1)
    -- From here on every fraction digit is lost.
    else (significand, 0)

namespace Numeral

/-- The exponent as a number, zero when none is written. -/
def exponentValue (n : Numeral) : Int :=
  match n.exponent with
  | none => 0
  | some (true, digits) => -(digitsValue digits : Int)
  | some (false, digits) => digitsValue digits

/-- The floating point number of a numeral; `none` when it is too large. -/
def float? (n : Numeral) : Option Binary64 :=
  let (significand, dropped) := takeWhole 0 n.whole
  let (significand, taken) := takeFraction significand n.fraction
  Binary64.ofParts? n.negative significand (dropped - taken + n.exponentValue)

/-- The integer of a numeral without fraction and exponent, if it can be held exactly. There is
    no integer `-0`. -/
def integer? (n : Numeral) : Option Int :=
  if n.fraction = [] ∧ n.exponent = none then
    let size := digitsValue n.whole
    -- The numeral of a negative zero is floating point.
    if n.negative then if size = 0 then none else some (-size)
    else some size
  else none

/-- The number that a numeral stands for; `none` when it is too large. -/
def number? (n : Numeral) : Option Number :=
  match n.integer? with
  | some i => if h : IntegerRange i then some (.integer i h) else n.float?.map .float
  | none => n.float?.map .float

end Numeral

end ListQuery.Json
