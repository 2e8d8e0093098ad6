import ListQuery.Json.Numeral
import ListQuery.Json.Literal

/-!
# Reading JSON texts

A reader takes something off the front of a text and says what follows it, or fails. Failures are
not told apart, except that the reader of a record may refuse content for a reason of its own
(`Fault.refused`); readers work from left to right, so the first failure is the one reported.

Values nest at most `depthLimit` arrays and objects deep. The depth that is left is an argument of
`value`, and each bracket uses one level up. Text that is only passed over (`skip`) follows the
same grammar without a limit, and its numbers and surrogates are not looked at.

## Main definitions

- `separated`: entries between commas up to a closing bracket, the one loop behind arrays, objects
  and records;
- `value`: a JSON value;
- `skip`: a JSON text of any depth, passed over;
- `whole`: a reader applied to a text that it must use up.
-/

namespace ListQuery.Json

/-! ## §1 Readers -/

/-- Why a text was not read: it is not of the required form, or its content was refused. -/
inductive Fault (ε : Type) where
  | malformed
  | refused (reason : ε)
  deriving DecidableEq

/-- Takes an `α` off the front of a text. -/
abbrev Reader (ε α : Type) := List Char → Except (Fault ε) (α × List Char)

variable {ε α σ : Type}

def malformed : Except (Fault ε) α :=
  .error .malformed

/-- A reading that fails in only one way. -/
def orMalformed : Option α → Except (Fault ε) α
  | some a => .ok a
  | none => malformed

/-- Whether a character may stand between the tokens of a JSON text. -/
def isSpace (c : Char) : Bool :=
  c = ' ' || c = '\t' || c = '\n' || c = '\r'

def skipSpace (s : List Char) : List Char :=
  s.dropWhile isSpace

/-- The reader's result on a text that holds nothing else but space. -/
def whole (reader : Reader ε α) (s : List Char) : Except (Fault ε) α := do
  let (a, rest) ← reader s
  if skipSpace rest = [] then .ok a else malformed

/-- What follows a fixed word. -/
def word : (expected : List Char) → List Char → Except (Fault ε) (List Char)
  | [], s => .ok s
  | _ :: _, [] => malformed
  | c :: expected, d :: s => if c = d then word expected s else malformed

def colon (s : List Char) : Except (Fault ε) (List Char) :=
  match skipSpace s with
  | ':' :: rest => .ok rest
  | _ => malformed

/-! ## §2 Entries between commas -/

/-- Read entries until the closing bracket, at most `fuel` of them. Every entry is followed by a
    comma or the bracket. -/
def separatedLoop (close : Char) (entry : σ → Reader ε σ) : (fuel : Nat) → σ → Reader ε σ
  | 0, _, _ => malformed
  | fuel + 1, state, s => do
    let (state, s) ← entry state s
    match skipSpace s with
    | [] => malformed
    | c :: rest =>
      if c = close then .ok (state, rest)
      else if c = ',' then separatedLoop close entry fuel state rest
      else malformed

/-- Read the entries after an opening bracket, up to the closing one. An entry updates a state.
    The text is fuel enough, since every entry but the last has a comma of its own. -/
def separated (close : Char) (entry : σ → Reader ε σ) (state : σ) : Reader ε σ := fun s =>
  match skipSpace s with
  | [] => malformed
  | c :: rest =>
    -- Only here may the closing bracket come without an entry before it.
    if c = close then .ok (state, rest) else separatedLoop close entry s.length state s

def items (item : Reader ε α) : Reader ε (List α) := fun s => do
  let (found, rest) ← separated ']' (fun found s => do
    let (a, rest) ← item s
    .ok (a :: found, rest)) [] s
  .ok (found.reverse, rest)

def key : Reader ε String := fun s =>
  match skipSpace s with
  | '"' :: rest => do
    let (k, rest) ← orMalformed (readString rest)
    let rest ← colon rest
    .ok (k, rest)
  | _ => malformed

/-! ## §3 Values -/

def number (s : List Char) : Except (Fault ε) (Number × List Char) := do
  let (numeral, rest) ← orMalformed (readNumeral s)
  let n ← orMalformed numeral.number?
  .ok (n, rest)

/-- A value that nests at most `depth` arrays and objects deep. Members are entered in key order,
    and of the members with one key the last one stays. -/
def value : (depth : Nat) → Reader ε Value
  | depth, s =>
    match skipSpace s with
    | [] => malformed
    | 'n' :: rest => do .ok (.null, ← word ['u', 'l', 'l'] rest)
    | 't' :: rest => do .ok (.bool true, ← word ['r', 'u', 'e'] rest)
    | 'f' :: rest => do .ok (.bool false, ← word ['a', 'l', 's', 'e'] rest)
    | '"' :: rest => do
      let (text, rest) ← orMalformed (readString rest)
      .ok (.string text, rest)
    | '[' :: rest =>
      match depth with
      | 0 => malformed
      | depth + 1 => do
        let (found, rest) ← items (value depth) rest
        .ok (.array found, rest)
    | '{' :: rest =>
      match depth with
      | 0 => malformed
      | depth + 1 => do
        let (members, rest) ← separated '}' (fun members s => do
          let (k, s) ← key s
          let (v, s) ← value depth s
          .ok (insertKey k v members, s)) [] rest
        .ok (.object members, rest)
    | c :: rest => do
      let (n, rest) ← number (c :: rest)
      .ok (.number n, rest)

/-- How many arrays and objects may stand inside one another. -/
def depthLimit : Nat := 127

/-- The value that a text writes. -/
def Value.read? (s : List Char) : Option Value :=
  match whole (ε := Empty) (value depthLimit) s with
  | .ok v => some v
  | .error _ => none

/-! ## §4 Passing over -/

/-- Pass over a JSON text of at most `depth` levels. -/
def skipWithin : (depth : Nat) → Reader ε Unit
  | depth, s =>
    match skipSpace s with
    | [] => malformed
    | 'n' :: rest => do .ok ((), ← word ['u', 'l', 'l'] rest)
    | 't' :: rest => do .ok ((), ← word ['r', 'u', 'e'] rest)
    | 'f' :: rest => do .ok ((), ← word ['a', 'l', 's', 'e'] rest)
    | '"' :: rest => do
      -- The units are not joined, so a surrogate may stand alone.
      let (_, rest) ← orMalformed (readUnits rest)
      .ok ((), rest)
    | '[' :: rest =>
      match depth with
      | 0 => malformed
      | depth + 1 => separated ']' (fun _ s => skipWithin depth s) () rest
    | '{' :: rest =>
      match depth with
      | 0 => malformed
      | depth + 1 => separated '}' (fun _ s =>
          match skipSpace s with
          | '"' :: s => do
            let (_, s) ← orMalformed (readUnits s)
            let s ← colon s
            skipWithin depth s
          | _ => malformed) () rest
    | c :: rest => do
      -- The numeral may stand for a number that is too large.
      let (_, rest) ← orMalformed (readNumeral (c :: rest))
      .ok ((), rest)

/-- Pass over a JSON text of any depth. A text is never deeper than it is long. -/
def skip : Reader ε Unit := fun s =>
  skipWithin s.length s

end ListQuery.Json
