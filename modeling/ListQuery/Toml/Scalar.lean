import ListQuery.Decimal.Binary64
import ListQuery.Toml.Lexis

/-!
# Numbers, times and truth values of TOML texts

A scalar is taken off the front of a text as far as its form goes; what follows it is checked by
whoever reads on. Dates and times are tried before numbers, and floating point numbers before
integers, since each begins like the next.

Integers have 64 bits, and a floating point number must not be too large for its format. A single
underscore may stand between digits.
-/

namespace ListQuery.Toml

open Nat (pow)

/-! ## §1 Digits -/

/-- The digits at the front of a text, and what follows. An underscore may stand before a digit. -/
def moreDigits (valid : Char → Bool) : List Char → List Char × List Char
  | [] => ([], [])
  | ['_'] => ([], ['_'])
  | '_' :: c :: s =>
    if valid c then
      let (digits, rest) := moreDigits valid s
      (c :: digits, rest)
    else ([], '_' :: c :: s)
  | c :: s =>
    if valid c then
      let (digits, rest) := moreDigits valid s
      (c :: digits, rest)
    else ([], c :: s)

/-- At least one digit at the front of a text. -/
def readDigits (valid : Char → Bool) : List Char → Option (List Char × List Char)
  | [] => none
  | c :: s =>
    if valid c then
      let (digits, rest) := moreDigits valid s
      some (c :: digits, rest)
    else none

/-- The value of digits in a base up to sixteen. -/
def digitsValue (base : Nat) (digits : List Char) : Nat :=
  digits.foldl (fun n c => base * n + (Json.hexValue? c).getD 0) 0

/-- Whether a character is a digit of a base up to sixteen. -/
def isDigitOf (base : Nat) (c : Char) : Bool :=
  match Json.hexValue? c with
  | some d => d < base
  | none => false

/-! ## §2 Numbers -/

/-- A sign at the front of a text: whether it is a minus. -/
def readSign : List Char → Bool × List Char
  | '+' :: s => (false, s)
  | '-' :: s => (true, s)
  | s => (false, s)

/-- Decimal digits without leading zeros. -/
def readDecimal : List Char → Option (List Char × List Char)
  | '0' :: s => some (['0'], s)
  | s => readDigits (isDigitOf 10) s

/-- An integer of 64 bits. -/
def integerValue? (n : Int) : Option Value :=
  if -pow 2 63 ≤ n ∧ n < pow 2 63 then some (.integer n) else none

/-- An integer in a base, after the mark of the base. -/
def readInBase (base : Nat) (s : List Char) : Option (Value × List Char) := do
  let (digits, rest) ← readDigits (isDigitOf base) s
  return (← integerValue? (digitsValue base digits), rest)

def readInteger (s : List Char) : Option (Value × List Char) :=
  match s with
  | '0' :: 'x' :: s => readInBase 16 s
  | '0' :: 'o' :: s => readInBase 8 s
  | '0' :: 'b' :: s => readInBase 2 s
  | s => do
    let (negative, s) := readSign s
    let (digits, rest) ← readDecimal s
    let size : Int := digitsValue 10 digits
    return (← integerValue? (if negative then -size else size), rest)

/-- Whether `digits · 10^exponent` is beyond the floating point numbers. Far from the limit the
    number of digits tells. -/
def overflows (digits : List Char) (exponent : Int) : Bool :=
  let n := digitsValue 10 digits
  let places := (digits.dropWhile (· = '0')).length + exponent
  if n = 0 ∨ places < 300 then false
  else if 320 < places then true
  else Decimal.rankLimit ≤
    Decimal.nearestRank (n * pow 10 exponent.toNat) (pow 10 (-exponent).toNat)

def readExponent : List Char → Option (Int × List Char)
  | c :: s =>
    if c = 'e' ∨ c = 'E' then do
      let (negative, s) := readSign s
      let (digits, rest) ← readDigits (isDigitOf 10) s
      let size : Int := digitsValue 10 digits
      return (if negative then -size else size, rest)
    else none
  | [] => none

/-- A floating point number with digits: it has a fraction or an exponent, or both. -/
def readDecimalFloat (s : List Char) : Option (Value × List Char) := do
  let (negative, s) := readSign s
  let (whole, s) ← readDecimal s
  let (fraction, exponent, rest) ←
    match s with
    | '.' :: s => do
      let (fraction, s) ← readDigits (isDigitOf 10) s
      match readExponent s with
      | some (exponent, s) => some (fraction, exponent, s)
      | none => some (fraction, 0, s)
    | s => (readExponent s).map fun (exponent, s) => ([], exponent, s)
  -- A negative number may be too large.
  if !negative && overflows (whole ++ fraction) (exponent - fraction.length) then none
  else some (.float, rest)

def readFloat (s : List Char) : Option (Value × List Char) :=
  match readDecimalFloat s with
  | some found => some found
  | none =>
    match (readSign s).2 with
    | 'i' :: 'n' :: 'f' :: s => some (.float, s)
    | 'n' :: 'a' :: 'n' :: s => some (.float, s)
    | _ => none

/-! ## §3 Times -/

/-- A number of exactly two digits from `low` to `high`. -/
def readTwo (low high : Nat) : List Char → Option (Nat × List Char)
  | a :: b :: s =>
    if a.isDigit && b.isDigit then
      let n := digitsValue 10 [a, b]
      if low ≤ n ∧ n ≤ high then some (n, s) else none
    else none
  | _ => none

/-- The number of days of a month. -/
def daysOf (year month : Nat) : Nat :=
  if month = 2 then
    if year % 4 = 0 ∧ (year % 100 ≠ 0 ∨ year % 400 = 0) then 29 else 28
  else if month = 4 ∨ month = 6 ∨ month = 9 ∨ month = 11 then 30
  else 31

/-- What follows a character. -/
def expect (c : Char) : List Char → Option (List Char)
  | d :: s => if d = c then some s else none
  | [] => none

/-- What follows a date. -/
def passDate (s : List Char) : Option (List Char) := do
  let (century, s) ← readTwo 0 99 s
  let (year, s) ← readTwo 0 99 s
  let (month, s) ← readTwo 1 12 (← expect '-' s)
  let (_, s) ← readTwo 1 (daysOf (100 * century + year) month) (← expect '-' s)
  return s

/-- What follows a time of day: hours, minutes and seconds, and possibly a fraction. -/
def passTime (s : List Char) : Option (List Char) := do
  let (_, s) ← readTwo 0 23 s
  let (_, s) ← readTwo 0 59 (← expect ':' s)
  let (_, s) ← readTwo 0 60 (← expect ':' s)
  match s with
  | '.' :: rest =>
    match rest.takeWhile Char.isDigit with
    | [] => none
    | _ => some (rest.dropWhile Char.isDigit)
  | s => some s

/-- What follows an offset from universal time, if there is one. -/
def passZone : List Char → Option (List Char)
  | [] => some []
  | c :: s =>
    if c = 'Z' ∨ c = 'z' then some s
    else if c = '+' ∨ c = '-' then do
      let (_, s) ← readTwo 0 23 s
      let (_, s) ← readTwo 0 59 (← expect ':' s)
      return s
    else some (c :: s)

/-- What follows a date and possibly a time. -/
def passDateTime (s : List Char) : Option (List Char) := do
  let rest ← passDate s
  match rest with
  | c :: s =>
    if c = 'T' ∨ c = 't' ∨ c = ' ' then
      match passTime s with
      | some s => passZone s
      -- What follows a date need not be a time.
      | none => return rest
    else return rest
  | [] => return []

def readTime (s : List Char) : Option (Value × List Char) :=
  match passDateTime s with
  | some rest => some (.time, rest)
  | none => (passTime s).map fun rest => (.time, rest)

/-! ## §4 Scalars -/

/-- A value that is no array and no table. -/
def readScalar (s : List Char) : Option (Value × List Char) :=
  match s with
  | 't' :: 'r' :: 'u' :: 'e' :: rest => some (.boolean true, rest)
  | 'f' :: 'a' :: 'l' :: 's' :: 'e' :: rest => some (.boolean false, rest)
  | '"' :: _ | '\'' :: _ => (readString s).map fun (text, rest) => (.string text, rest)
  | s =>
    match readTime s with
    | some found => some found
    | none =>
      match readFloat s with
      | some found => some found
      | none => readInteger s

end ListQuery.Toml
