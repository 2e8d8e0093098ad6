import ListQuery.Relation.Brace
import ListQuery.Text.Blank

/-!
# Entries of a relation list

One level of a relation list is a sequence of entries between commas. An entry is a name, possibly a
block in braces, and the text behind the block:

    author { profile, posts } , tags

A level is first cut into *pieces*: commas, closed blocks, single characters, and a last brace that
nothing closes together with all that follows it. Commas and braces within a closed block belong to
the block. The pieces between two commas make an entry, and the positions in it count bytes of the
text that the level is a part of.

The first block is the entry's block, and later ones are part of the text behind it. A closing brace
that closes nothing is an ordinary character, but an entry remembers where its first one stands.

## Main statements

- `texts_pieces`: the pieces make up the text of the level.
-/

namespace ListQuery.Relation

open Text (byteLength)

/-! ## §1 Spans -/

/-- A part of a text and the byte position at which it starts. -/
structure Span where
  text : List Char
  offset : Nat
  deriving DecidableEq, Repr

def Span.stop (s : Span) : Nat :=
  s.offset + byteLength s.text

/-- The span without its leading blanks. -/
def Span.trimStart (s : Span) : Span :=
  ⟨Text.trimStart s.text, s.offset + byteLength (s.text.takeWhile Text.isBlank)⟩

/-! ## §2 Pieces -/

/-- A piece of a level. -/
inductive Piece where
  /-- A comma between entries. -/
  | comma
  /-- A character that is neither a comma nor an opening brace. -/
  | char (c : Char)
  /-- A closed block, by the text between its braces. -/
  | block (body : List Char)
  /-- A brace that nothing closes, by the text behind it. -/
  | unclosed (body : List Char)
  deriving DecidableEq, Repr

def Piece.text : Piece → List Char
  | .comma => [',']
  | .char c => [c]
  | .block body => '\x7b' :: body ++ ['\x7d']
  | .unclosed body => '\x7b' :: body

/-- The pieces of a level. -/
def pieces : List Char → List Piece
  | [] => []
  | c :: s =>
    if c = ',' then .comma :: pieces s
    else if c = '\x7b' then
      match _h : cutBlock s with
      | some (body, rest) => .block body :: pieces rest
      -- What follows an open brace is not cut into pieces any more.
      | none => [.unclosed s]
    else .char c :: pieces s
  termination_by s => s.length
  decreasing_by
    · simp
    · have := length_of_cutBlock _h
      simp
      omega
    · simp

def texts (ps : List Piece) : List Char :=
  ps.flatMap Piece.text

@[simp] theorem texts_nil : texts [] = [] := rfl

@[simp] theorem texts_cons (p : Piece) (ps : List Piece) :
    texts (p :: ps) = p.text ++ texts ps := rfl

/-- The pieces make up the text of the level. -/
theorem texts_pieces (s : List Char) : texts (pieces s) = s := by
  fun_induction pieces s with
  | case1 => rfl
  | case2 s ih => simp [Piece.text, ih]
  | case3 s body rest hcut _ ih =>
    -- A closed block is the text up to its closing brace, and the brace.
    simp [Piece.text, ih, closing_eq_append hcut]
  | case4 s _ _ => simp [Piece.text]
  | case5 c s _ _ ih => simp [Piece.text, ih]

/-- The groups of pieces between commas. A comma ends the group before it, so none is left behind a
    last comma. -/
def groups : List Piece → List (List Piece)
  | [] => []
  | .comma :: ps => [] :: groups ps
  | p :: ps =>
    match groups ps with
    | [] => [[p]]
    | g :: gs => (p :: g) :: gs

/-! ## §3 Entries -/

/-- A block of an entry. -/
structure Block where
  /-- The position of the opening brace. -/
  openAt : Nat
  /-- The text between the braces, up to the end of the level if the block is not closed. -/
  body : List Char
  /-- Whether there is a closing brace. -/
  closed : Bool
  deriving DecidableEq, Repr

/-- The level within the block. -/
def Block.content (b : Block) : Span :=
  ⟨b.body, b.openAt + 1⟩

/-- An entry of a relation list. -/
structure Entry where
  name : Span
  block : Option Block
  /-- The text behind the block. -/
  trailing : Span
  /-- The position of the first closing brace that closes nothing. -/
  strayClose : Option Nat
  deriving DecidableEq, Repr

/-- Whether a piece is a character by itself. -/
def Piece.isChar : Piece → Bool
  | .char _ => true
  | _ => false

/-- The position of the first closing brace among the pieces of an entry that starts at `offset`. -/
def strayClose? (offset : Nat) : List Piece → Option Nat
  | [] => none
  | .char '\x7d' :: _ => some offset
  | p :: ps => strayClose? (offset + byteLength p.text) ps

/-- The block that a piece is, when it starts at `offset`. -/
def Piece.block? (offset : Nat) : Piece → Option Block
  | .block body => some ⟨offset, body, true⟩
  | .unclosed body => some ⟨offset, body, false⟩
  | .comma | .char _ => none

/-- The entry that pieces make up, starting at `offset`. -/
def Entry.ofPieces (offset : Nat) (ps : List Piece) : Entry :=
  let name : Span := ⟨texts (ps.takeWhile Piece.isChar), offset⟩
  let strayClose := strayClose? offset ps
  match ps.dropWhile Piece.isChar with
  | [] => ⟨name, none, ⟨[], name.stop⟩, strayClose⟩
  | p :: ps =>
    ⟨name, p.block? name.stop, ⟨texts ps, name.stop + byteLength p.text⟩, strayClose⟩

/-- The entries of groups of pieces, when the first group starts at `offset`. -/
def Entry.ofGroups : (offset : Nat) → List (List Piece) → List Entry
  | _, [] => []
  | offset, g :: gs =>
    -- One more byte for the comma.
    Entry.ofPieces offset g :: Entry.ofGroups (offset + byteLength (texts g) + 1) gs

def Span.entries (s : Span) : List Entry :=
  Entry.ofGroups s.offset (groups (pieces s.text))

/-! ## §4 The outermost level -/

/-- The outermost level of a relation list: the trimmed text, without a pair of braces around all of
    it. -/
def outermost (source : List Char) : Span :=
  let leading := byteLength (source.takeWhile Text.isBlank)
  let trimmed := Text.trim source
  match trimmed with
  | '\x7b' :: s =>
    match cutBlock s with
    -- Only a brace that closes behind everything else goes around all of it.
    | some (body, []) => ⟨body, leading + 1⟩
    | _ => ⟨trimmed, leading⟩
  | _ => ⟨trimmed, leading⟩

end ListQuery.Relation
