import ListQuery.Json.Literal
import ListQuery.Toml.Table

/-!
# Strings and keys of TOML texts

Lines end in line feeds here: a carriage return in front of a line feed is taken out of the whole
text first, and no other carriage return may stand anywhere.

There are four kinds of strings. They are quoted by `"` with escapes or by `'` without, and the
quotes are tripled around a string that may run over several lines. A line feed directly after
tripled quotes is left out. In a long string with escapes a backslash at the end of a line takes
away the line feed and all blanks and line feeds after it. Up to two quotes may stand directly
before the closing ones.
-/

namespace ListQuery.Toml

/-! ## §1 Characters -/

/-- The text with every line ending in a line feed alone. -/
def unifyLineEnds : List Char → List Char
  | [] => []
  | '\r' :: '\n' :: s => '\n' :: unifyLineEnds s
  | c :: s => c :: unifyLineEnds s

/-- Whether a character may stand between tokens of a line. -/
def isBlank (c : Char) : Bool :=
  c = ' ' || c = '\t'

/-- Whether a character may stand in strings and comments. -/
def isPlain (c : Char) : Bool :=
  c = '\t' || (0x20 ≤ c.toNat && c.toNat ≠ 0x7F)

def skipBlanks (s : List Char) : List Char :=
  s.dropWhile isBlank

/-- What follows the end of a line, with a comment before it or not. -/
def endLine (s : List Char) : Option (List Char) :=
  let rest :=
    match skipBlanks s with
    | '#' :: comment => comment.dropWhile isPlain
    | s => s
  match rest with
  | [] => some []
  | '\n' :: rest => some rest
  | _ => none

/-- The text without leading blanks, line feeds and comments. -/
def skipLines : (inComment : Bool) → List Char → List Char
  | _, [] => []
  | inComment, c :: s =>
    if c = '\n' then skipLines false s
    else if inComment then if isPlain c then skipLines true s else c :: s
    else if isBlank c then skipLines false s
    else if c = '#' then skipLines true s
    else c :: s

/-! ## §2 Strings -/

structure StringStyle where
  quote : Char
  /-- Whether the quotes are tripled. -/
  long : Bool
  deriving DecidableEq, Repr

/-- Whether a backslash is special in strings of this kind. -/
def StringStyle.escapes (style : StringStyle) : Bool :=
  style.quote = '"'

/-- The character with a number. -/
def charOfNumber? (n : Nat) : Option Char :=
  if n.isValidChar then some (Char.ofNat n) else none

/-- The number that hexadecimal digits write. -/
def hexNumber? (digits : List Char) : Option Nat :=
  digits.foldlM (fun n c => do return 16 * n + (← Json.hexValue? c)) 0

/-- The character that a letter after a backslash stands for. -/
def escapedChar? (c : Char) : Option Char :=
  match c with
  | 'b' => some '\x08'
  | 't' => some '\t'
  | 'n' => some '\n'
  | 'f' => some '\x0C'
  | 'r' => some '\r'
  | '"' => some '"'
  | '\\' => some '\\'
  | _ => none

/-- Cut a text at tripled quotes: the quotes that still belong to the string, and what follows. -/
def closeLong? (quote : Char) (s : List Char) : Option (List Char × List Char) :=
  let run := (s.takeWhile (· = quote)).length
  if 3 ≤ run then
    -- Of a run of quotes the last three close the string, and at most two stand before them.
    let kept := min (run - 3) 2
    some (List.replicate kept quote, s.drop (kept + 3))
  else none

/-- The content of a string up to its closing quotes, and what follows them. While `folding`, blanks
    and line feeds are left out. -/
def readContent (style : StringStyle) : (folding : Bool) → List Char →
    Option (List Char × List Char)
  | _, [] => none
  | folding, c :: s =>
    let keep (c : Char) (found : Option (List Char × List Char)) :=
      found.map fun cut => (c :: cut.1, cut.2)
    if folding && (isBlank c || c = '\n') then readContent style true s
    else if c = style.quote then
      if style.long then
        match closeLong? style.quote (c :: s) with
        | some cut => some cut
        | none => keep c (readContent style false s)
      else some ([], s)
    else if c = '\\' && style.escapes then
      -- A backslash at the end of a line takes the line feed and all blanks after it away.
      if style.long && (skipBlanks s).head? = some '\n' then readContent style true s
      else match s with
        | 'u' :: d₁ :: d₂ :: d₃ :: d₄ :: s => do
          let c ← charOfNumber? (← hexNumber? [d₁, d₂, d₃, d₄])
          keep c (readContent style false s)
        | 'U' :: d₁ :: d₂ :: d₃ :: d₄ :: d₅ :: d₆ :: d₇ :: d₈ :: s => do
          let c ← charOfNumber? (← hexNumber? [d₁, d₂, d₃, d₄, d₅, d₆, d₇, d₈])
          keep c (readContent style false s)
        | e :: s => do
          let c ← escapedChar? e
          keep c (readContent style false s)
        | [] => none
    else if isPlain c || (style.long && c = '\n') then keep c (readContent style false s)
    else none

/-- A string of one line, at its opening quote. -/
def readShortString (s : List Char) : Option (String × List Char) :=
  match s with
  | c :: s =>
    if c = '"' ∨ c = '\'' then do
      let (content, rest) ← readContent ⟨c, false⟩ false s
      return (String.ofList content, rest)
    else none
  | [] => none

/-- A string, at its opening quotes. -/
def readString (s : List Char) : Option (String × List Char) :=
  match s with
  | c :: d :: e :: rest =>
    if (c = '"' ∨ c = '\'') ∧ d = c ∧ e = c then do
      -- A line feed directly behind the quotes is left out.
      let body := if rest.head? = some '\n' then rest.tail else rest
      let (content, rest) ← readContent ⟨c, true⟩ false body
      return (String.ofList content, rest)
    else readShortString s
  | _ => readShortString s

/-! ## §3 Keys -/

/-- Whether a character may stand in a key without quotes. -/
def isBare (c : Char) : Bool :=
  c.isAlphanum || c = '-' || c = '_'

def readSegment (s : List Char) : Option (String × List Char) :=
  if s.head? = some '"' ∨ s.head? = some '\'' then readShortString s
  else match s.takeWhile isBare with
    | [] => none
    | name => some (String.ofList name, s.dropWhile isBare)

/-- The number of levels that keys may lead down and that values may be nested. -/
def levelLimit : Nat := 79

/-- A key of at most so many segments, with the blanks around it. -/
def readKey : (segments : Nat) → List Char → Option (Key × List Char)
  | 0, _ => none
  | segments + 1, s => do
    let (name, s) ← readSegment (skipBlanks s)
    match skipBlanks s with
    | '.' :: s => do
      let (key, s) ← readKey segments s
      return (⟨name :: key.path, key.last⟩, s)
    | s => return (⟨[], name⟩, s)

end ListQuery.Toml
