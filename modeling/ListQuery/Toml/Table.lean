/-!
# Tables of settings

A TOML document is a table: values under keys, some of which are tables again. How a table came to
be decides what may be added to it later:

- a table with a header of its own, or written between braces, is complete;
- one that is only *implied* by the header of a table inside it can still get a header;
- one that was made by a dotted key can be added to by further dotted keys.

A header may lead through any table that is not written between braces. A list of tables gets one
more table with every header of its own, and headers that lead through it go to the last one.
-/

namespace ListQuery.Toml

/-! ## §1 Values -/

/-- How a table came to be. -/
inductive Origin where
  | header
  /-- From the header of a table inside it. -/
  | implied
  | dotted
  | braces
  deriving DecidableEq, Repr

/-- A value. Of floating point numbers and times only the kind is kept. -/
inductive Value where
  | string (text : String)
  | integer (n : Int)
  | float
  | boolean (b : Bool)
  | time
  | array (items : List Value)
  | table (origin : Origin) (members : List (String × Value))
  /-- A list of tables with headers. -/
  | tables (rows : List (List (String × Value)))

/-- Values under keys. -/
abbrev Members := List (String × Value)

/-- A dotted key: the tables it leads through, and its last segment. -/
structure Key where
  path : List String
  last : String
  deriving DecidableEq, Repr

/-! ## §2 Entering values -/

/-- Replace what stands under a key by what `f` makes of it, or of nothing. -/
def alter (key : String) (f : Option Value → Option Value) : Members → Option Members
  | [] => do return [(key, ← f none)]
  | (k, v) :: rest =>
    if k = key then do return (k, ← f (some v)) :: rest
    else do return (k, v) :: (← alter key f rest)

/-- Enter a value under a key that must be new. -/
def enterNew (key : String) (value : Value) : Members → Option Members :=
  alter key fun found => if found.isNone then some value else none

/-- Apply `f` to the last of a list of tables. -/
def alterLast (f : Members → Option Members) : List Members → Option (List Members)
  | [] => none
  | [row] => do return [← f row]
  | row :: rows => do return row :: (← alterLast f rows)

/-- Enter a value below a table, led by a dotted key. The key may lead through tables that are
    implied or dotted, and the last of them must be dotted. -/
def enterBelow (last : String) (value : Value) :
    (path : List String) → Origin → Members → Option Members
  | [], origin, members => if origin = .dotted then enterNew last value members else none
  | key :: path, _, members =>
    alter key (fun
      | none => do return .table .dotted (← enterBelow last value path .dotted [])
      | some (.table origin inner) =>
        if origin = .dotted ∨ origin = .implied then do
          return .table origin (← enterBelow last value path origin inner)
        else none
      | some (.tables rows) => do
        return .tables (← alterLast (enterBelow last value path .header) rows)
      | some _ => none) members

def enter (key : Key) (value : Value) (members : Members) : Option Members :=
  match key.path with
  | [] => enterNew key.last value members
  | path => enterBelow key.last value path .header members

/-! ## §3 Headers -/

/-- Alter what stands at the end of a header's path, making the tables it leads through. -/
def alterAt (last : String) (f : Option Value → Option Value) :
    (path : List String) → Members → Option Members
  | [], members => alter last f members
  | key :: path, members =>
    alter key (fun
      | none => do return .table .implied (← alterAt last f path [])
      | some (.table origin inner) =>
        if origin = .braces then none
        else do return .table origin (← alterAt last f path inner)
      | some (.tables rows) => do return .tables (← alterLast (alterAt last f path) rows)
      | some _ => none) members

/-- A part of a document: a header and the entries below it. -/
structure Section where
  key : Key
  /-- Whether the header adds a table to a list of tables. -/
  isRow : Bool
  entries : List (Key × Value)

def enterAll (entries : List (Key × Value)) (members : Members) : Option Members :=
  entries.foldlM (fun members e => enter e.1 e.2 members) members

/-- Enter a section into a document. -/
def Section.enter (s : Section) : Members → Option Members :=
  alterAt s.key.last (fun found =>
    if s.isRow then
      match found with
      | none => do return .tables [← enterAll s.entries []]
      | some (.tables rows) => do return .tables (rows ++ [← enterAll s.entries []])
      | some _ => none
    else
      match found with
      | none => do return .table .header (← enterAll s.entries [])
      -- The header that was missing so far.
      | some (.table .implied members) => do return .table .header (← enterAll s.entries members)
      | some _ => none) s.key.path

/-- The table that a document makes up. -/
def assemble (entries : List (Key × Value)) (sections : List Section) : Option Members := do
  let members ← enterAll entries []
  sections.foldlM (fun members s => s.enter members) members

end ListQuery.Toml
