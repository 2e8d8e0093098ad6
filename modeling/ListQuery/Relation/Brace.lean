import ListQuery.Text.Bytes

/-!
# Matching braces

A block runs from a brace to the brace that closes it. Braces are counted, except within
double-quoted strings, in which a backslash takes the next character with it. JSON objects are
blocks in this sense: their strings may hold braces, and nothing else about them matters here.

## Main statements

- `closing_eq_append`: a block and what follows it make up the text;
- `closing_append`: what closes a block does not depend on the text behind it.
-/

namespace ListQuery.Relation

/-! ## §1 Strings -/

/-- Where a position stands with respect to double-quoted strings. -/
inductive Quoting where
  | outside
  /-- Within a string. -/
  | inside
  /-- Within a string, after a backslash. -/
  | escaped
  deriving DecidableEq, Repr

/-- The position behind a character. -/
def Quoting.next : Quoting → Char → Quoting
  | .outside, c => if c = '"' then .inside else .outside
  | .inside, c => if c = '\\' then .escaped else if c = '"' then .outside else .inside
  | .escaped, _ => .inside

/-! ## §2 The closing brace -/

/-- Cut a text at the brace that closes all of `depth + 1` open blocks: what stands before the
    brace, and what stands behind it. -/
def closing : (depth : Nat) → Quoting → List Char → Option (List Char × List Char)
  | _, _, [] => none
  | depth, .outside, c :: s =>
    if c = '\x7d' then
      match depth with
      | 0 => some ([], s)
      | depth + 1 => (closing depth .outside s).map fun cut => (c :: cut.1, cut.2)
    else
      -- A further opening brace has to be closed first.
      (closing (if c = '\x7b' then depth + 1 else depth) (Quoting.outside.next c) s).map
        fun cut => (c :: cut.1, cut.2)
  | depth, .inside, c :: s =>
    (closing depth (Quoting.inside.next c) s).map fun cut => (c :: cut.1, cut.2)
  | depth, .escaped, c :: s =>
    (closing depth (Quoting.escaped.next c) s).map fun cut => (c :: cut.1, cut.2)

/-- Cut a text behind an opening brace at the brace that closes it. -/
def cutBlock (s : List Char) : Option (List Char × List Char) :=
  closing 0 .outside s

/-- The byte position of the brace that closes the one at the given position. -/
def closeAt? (source : List Char) (openAt : Nat) : Option Nat :=
  match Text.dropBytes openAt source with
  | some ('\x7b' :: s) => (cutBlock s).map fun cut => openAt + 1 + Text.byteLength cut.1
  | _ => none

/-! ## §3 Laws -/

/-- A block and what follows it make up the text. -/
theorem closing_eq_append {depth : Nat} {q : Quoting} {s body rest : List Char}
    (h : closing depth q s = some (body, rest)) : s = body ++ '\x7d' :: rest := by
  induction s generalizing depth q body with
  | nil => simp [closing] at h
  | cons c s ih =>
    -- Every character but the closing brace goes in front of what the rest is cut into.
    have step {d : Nat} {q' : Quoting}
        (h : (closing d q' s).map (fun cut => (c :: cut.1, cut.2)) = some (body, rest)) :
        c :: s = body ++ '\x7d' :: rest := by
      obtain ⟨⟨b, r⟩, hcut, heq⟩ := Option.map_eq_some_iff.1 h
      obtain ⟨rfl, rfl⟩ := Prod.mk.inj heq
      simp [ih hcut]
    cases q with
    | outside =>
      simp only [closing] at h
      split at h
      · rename_i hc
        cases depth with
        | zero => obtain ⟨rfl, rfl⟩ := Prod.mk.inj (Option.some.inj h); simp [hc]
        | succ depth => exact step h
      · exact step h
    | inside => exact step h
    | escaped => exact step h

/-- What closes a block does not depend on the text behind it. -/
theorem closing_append {depth : Nat} {q : Quoting} {s body rest : List Char} (t : List Char)
    (h : closing depth q s = some (body, rest)) :
    closing depth q (s ++ t) = some (body, rest ++ t) := by
  induction s generalizing depth q body with
  | nil => simp [closing] at h
  | cons c s ih =>
    -- Every character but the closing brace is passed over in the longer text as well.
    have step {d : Nat} {q' : Quoting}
        (h : (closing d q' s).map (fun cut => (c :: cut.1, cut.2)) = some (body, rest)) :
        (closing d q' (s ++ t)).map (fun cut => (c :: cut.1, cut.2)) = some (body, rest ++ t) := by
      obtain ⟨⟨b, r⟩, hcut, heq⟩ := Option.map_eq_some_iff.1 h
      obtain ⟨rfl, rfl⟩ := Prod.mk.inj heq
      simp [ih hcut]
    cases q with
    | outside =>
      simp only [closing, List.cons_append] at h ⊢
      split at h
      · rename_i hc
        rw [if_pos hc]
        cases depth with
        | zero => obtain ⟨rfl, rfl⟩ := Prod.mk.inj (Option.some.inj h); rfl
        | succ depth => exact step h
      · rename_i hc
        rw [if_neg hc]
        exact step h
    | inside => exact step h
    | escaped => exact step h

theorem length_of_cutBlock {s body rest : List Char} (h : cutBlock s = some (body, rest)) :
    rest.length < s.length := by
  have := congrArg List.length (closing_eq_append h)
  simp at this
  omega

end ListQuery.Relation
