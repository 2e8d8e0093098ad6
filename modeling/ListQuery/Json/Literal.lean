/-!
# String literals of JSON texts

The inside of a string literal is a sequence of *units*: a character that stands for itself, a
two-character escape, or `\u` with four hexadecimal digits. A unit is a number, since the last form
may write half of a surrogate pair; `joinSurrogates` puts the halves of every pair together and
refuses a half that stands alone. A control character does not stand for itself.
-/

namespace ListQuery.Json

/-! ## §1 Units -/

/-- The value of a hexadecimal digit. -/
def hexValue? (c : Char) : Option Nat :=
  if '0' ≤ c ∧ c ≤ '9' then some (c.toNat - '0'.toNat)
  else if 'a' ≤ c ∧ c ≤ 'f' then some (c.toNat - 'a'.toNat + 10)
  else if 'A' ≤ c ∧ c ≤ 'F' then some (c.toNat - 'A'.toNat + 10)
  else none

/-- The number that four hexadecimal digits write. -/
def hexUnit? (a b c d : Char) : Option Nat := do
  return ((← hexValue? a) * 4096 + (← hexValue? b) * 256 + (← hexValue? c) * 16 + (← hexValue? d))

/-- The unit that a letter after a backslash stands for. -/
def escapedUnit? (c : Char) : Option Nat :=
  match c with
  | '"' => some 0x22
  | '\\' => some 0x5C
  | '/' => some 0x2F
  | 'b' => some 0x08
  | 'f' => some 0x0C
  | 'n' => some 0x0A
  | 'r' => some 0x0D
  | 't' => some 0x09
  | _ => none

/-- The units of a literal up to its closing quote, and what follows the quote. -/
def readUnits : List Char → Option (List Nat × List Char)
  | [] => none
  | '"' :: s => some ([], s)
  | '\\' :: 'u' :: a :: b :: c :: d :: s =>
    match hexUnit? a b c d, readUnits s with
    | some unit, some (units, rest) => some (unit :: units, rest)
    | _, _ => none
  -- Without four digits behind it, the letter of a code unit ends up here and is refused.
  | '\\' :: c :: s =>
    match escapedUnit? c, readUnits s with
    | some unit, some (units, rest) => some (unit :: units, rest)
    | _, _ => none
  | c :: s =>
    if c.toNat < 0x20 then none
    else match readUnits s with
      | some (units, rest) => some (c.toNat :: units, rest)
      | none => none

/-! ## §2 Characters -/

/-- Whether a unit is the first half of a surrogate pair. -/
def isHighSurrogate (unit : Nat) : Bool :=
  0xD800 ≤ unit && unit < 0xDC00

/-- Whether a unit is the second half of a surrogate pair. -/
def isLowSurrogate (unit : Nat) : Bool :=
  0xDC00 ≤ unit && unit < 0xE000

/-- The characters of a sequence of units; `none` if a half of a pair stands alone. -/
def joinSurrogates : List Nat → Option (List Char)
  | [] => some []
  | high :: low :: units =>
    if isHighSurrogate high then
      if isLowSurrogate low then
        (joinSurrogates units).map
          (Char.ofNat (0x10000 + (high - 0xD800) * 1024 + (low - 0xDC00)) :: ·)
      else none
    -- A second half comes only after a first one.
    else if isLowSurrogate high then none
    else (joinSurrogates (low :: units)).map (Char.ofNat high :: ·)
  | [unit] =>
    if isHighSurrogate unit || isLowSurrogate unit then none else some [Char.ofNat unit]

/-- The text of a literal up to its closing quote, and what follows the quote. -/
def readString (s : List Char) : Option (String × List Char) :=
  match readUnits s with
  | none => none
  | some (units, rest) =>
    match joinSurrogates units with
    | none => none
    | some chars => some (String.ofList chars, rest)

/-! ## §3 Writing -/

def hexDigit (n : Nat) : Char :=
  Nat.digitChar n

/-- One character inside a literal. Quote, backslash and control characters are escaped, and
    nothing else is. -/
def escapeChar (c : Char) : List Char :=
  if c = '"' then ['\\', '"']
  else if c = '\\' then ['\\', '\\']
  else if c.toNat = 0x08 then ['\\', 'b']
  else if c.toNat = 0x09 then ['\\', 't']
  else if c.toNat = 0x0A then ['\\', 'n']
  else if c.toNat = 0x0C then ['\\', 'f']
  else if c.toNat = 0x0D then ['\\', 'r']
  else if c.toNat < 0x20 then
    -- Two digits are enough below 32.
    ['\\', 'u', '0', '0', hexDigit (c.toNat / 16), hexDigit (c.toNat % 16)]
  else [c]

/-- A string literal with its quotes. -/
def literal (s : String) : List Char :=
  '"' :: s.toList.flatMap escapeChar ++ ['"']

end ListQuery.Json
