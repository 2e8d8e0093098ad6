import ListQuery.Toml.Scalar

/-!
# Reading TOML documents

A document is a sequence of lines: entries of a dotted key and a value, headers of tables, and lines
with a comment or nothing on them. A table between braces stands on one line, while an array may run
over several and hold comments.
-/

namespace ListQuery.Toml

/-! ## §1 Values -/

/-- The items of an array after its opening bracket. A comma may follow the last one. -/
def readItems (item : List Char → Option (Value × List Char)) : (fuel : Nat) → List Char →
    Option (List Value × List Char)
  | 0, _ => none
  | fuel + 1, s =>
    match skipLines false s with
    | ']' :: rest => some ([], rest)
    | s => do
      let (v, s) ← item s
      match skipLines false s with
      | ']' :: rest => return ([v], rest)
      | ',' :: s => do
        let (vs, rest) ← readItems item fuel s
        return (v :: vs, rest)
      | _ => none

def readEntry (value : List Char → Option (Value × List Char)) (s : List Char) :
    Option ((Key × Value) × List Char) := do
  let (key, s) ← readKey levelLimit s
  let s ← expect '=' s
  let (v, rest) ← value (skipBlanks s)
  return ((key, v), rest)

/-- The entries of a table between braces, up to the closing one. -/
def readBraced (value : List Char → Option (Value × List Char)) : (fuel : Nat) → List Char →
    Option (List (Key × Value) × List Char)
  | 0, _ => none
  | fuel + 1, s => do
    let (entry, s) ← readEntry value s
    match skipBlanks s with
    | '\x7d' :: rest => return ([entry], rest)
    | ',' :: s => do
      let (entries, rest) ← readBraced value fuel s
      return (entry :: entries, rest)
    | _ => none

/-- A value of at most so many levels. -/
def readValue : (levels : Nat) → List Char → Option (Value × List Char)
  | levels, s =>
    match s with
    | '[' :: rest =>
      match levels with
      | 0 => none
      | levels + 1 => do
        let (items, rest) ← readItems (readValue levels) rest.length.succ rest
        return (.array items, rest)
    | '\x7b' :: rest =>
      match levels with
      | 0 => none
      | levels + 1 => do
        match skipBlanks rest with
        | '\x7d' :: rest => return (.table .braces [], rest)
        | rest =>
          let (entries, rest) ← readBraced (readValue levels) rest.length rest
          -- A key that stands twice spoils the table.
          return (.table .braces (← enterAll entries []), rest)
    | s => readScalar s

/-! ## §2 Lines -/

inductive Statement where
  | entry (key : Key) (value : Value)
  | header (key : Key) (isRow : Bool)

/-- A header after its opening bracket. -/
def readHeader (s : List Char) : Option (Statement × List Char) := do
  match s with
  | '[' :: s =>
    let (key, s) ← readKey levelLimit s
    -- A list of tables has two brackets on either side, with nothing between them.
    let s ← expect ']' (← expect ']' s)
    return (.header key true, s)
  | s =>
    let (key, s) ← readKey levelLimit s
    let s ← expect ']' s
    return (.header key false, s)

/-- The statement that a line starts with. -/
def readStatement (s : List Char) : Option (Statement × List Char) :=
  match s with
  | '[' :: s => readHeader s
  | s => (readEntry (readValue levelLimit) s).map fun (e, rest) => (.entry e.1 e.2, rest)

/-- The statements of a document. Every statement ends its line. -/
def readStatements : (fuel : Nat) → List Char → Option (List Statement)
  | 0, _ => none
  | fuel + 1, s =>
    match skipBlanks s with
    | [] => some []
    | c :: rest =>
      -- A line without a statement.
      if c = '#' ∨ c = '\n' then do readStatements fuel (← endLine (c :: rest))
      else do
        let (statement, rest) ← readStatement (c :: rest)
        return statement :: (← readStatements fuel (← endLine rest))

/-! ## §3 Documents -/

/-- The entries before the first header, and the sections. -/
def sections : List Statement → List (Key × Value) × List Section
  | [] => ([], [])
  | .entry key value :: rest =>
    let (entries, later) := sections rest
    ((key, value) :: entries, later)
  | .header key isRow :: rest =>
    let (entries, later) := sections rest
    ([], ⟨key, isRow, entries⟩ :: later)

/-- The text without a byte order mark at its start. -/
def dropMark : List Char → List Char
  | c :: s => if c.toNat = 0xFEFF then s else c :: s
  | [] => []

/-- The table that a text writes. -/
def read? (text : String) : Option Members := do
  let s := unifyLineEnds (dropMark text.toList)
  let (entries, later) := sections (← readStatements (s.length + 1) s)
  assemble entries later

end ListQuery.Toml
