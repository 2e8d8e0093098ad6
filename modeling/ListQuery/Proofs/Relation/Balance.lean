import ListQuery.Json.Printer
import ListQuery.Relation.Brace
import Mathlib.Tactic.SplitIfs

/-!
# Balanced texts

The search for a closing brace goes over a text character by character. A text is *passed* when the
search comes out behind it with as many open blocks as before, so that the text becomes a part of
the block that is searched. Passing is stated with the position in a double-quoted string before and
behind the text, and it composes: every text here is passed because its parts are.

A *balanced* text is passed from outside strings to outside strings. Every JSON text that is printed
is balanced, whatever its strings hold, since a quote in a string is escaped.

## Main statements

- `Balanced.block`: a balanced text in braces is balanced;
- `cutBlock_of_balanced`: the block behind an opening brace is the balanced text up to the brace
  that follows it;
- `balanced_render`: printed JSON is balanced.
-/

namespace ListQuery.Relation

/-! ## §1 Passing over a text -/

/-- The search for a closing brace passes over `s`: it starts in position `q`, ends in position
    `q'`, and counts as many open blocks behind `s` as before it. -/
def Passes (q q' : Quoting) (s : List Char) : Prop :=
  ∀ (depth : Nat) (t : List Char),
    closing depth q (s ++ t) = (closing depth q' t).map fun cut => (s ++ cut.1, cut.2)

theorem passes_nil (q : Quoting) : Passes q q [] := by
  intro depth t
  simp

/-- One text after another is passed in two steps. -/
theorem Passes.append {q q' q'' : Quoting} {s t : List Char} (hs : Passes q q' s)
    (ht : Passes q' q'' t) : Passes q q'' (s ++ t) := by
  intro depth u
  rw [List.append_assoc, hs, ht, Option.map_map]
  simp [Function.comp_def]

/-- A character is passed, unless it is a brace outside strings. -/
theorem passes_char {q : Quoting} {c : Char} (h : q = .outside → c ≠ '{' ∧ c ≠ '}') :
    Passes q (q.next c) [c] := by
  intro depth t
  -- Only outside strings does a character open or close a block.
  cases q with
  | outside =>
    obtain ⟨hopen, hclose⟩ := h rfl
    simp [closing, hopen, hclose]
  | inside => simp [closing]
  | escaped => simp [closing]

/-! ## §2 Balanced texts -/

/-- A text that is passed from outside strings to outside strings. -/
def Balanced (s : List Char) : Prop :=
  Passes .outside .outside s

theorem Balanced.append {s t : List Char} (hs : Balanced s) (ht : Balanced t) :
    Balanced (s ++ t) :=
  Passes.append hs ht

/-- A character that means nothing to the search for a closing brace. -/
def IsPlain (c : Char) : Prop :=
  c ≠ '"' ∧ c ≠ '{' ∧ c ≠ '}'

instance (c : Char) : Decidable (IsPlain c) :=
  inferInstanceAs (Decidable (_ ∧ _))

theorem balanced_char {c : Char} (h : IsPlain c) : Balanced [c] := by
  have hnext : Quoting.outside.next c = .outside := by simp [Quoting.next, h.1]
  have hpass := passes_char (q := .outside) fun _ => h.2
  rwa [hnext] at hpass

theorem balanced_of_plain {s : List Char} (h : ∀ c ∈ s, IsPlain c) : Balanced s := by
  induction s with
  | nil => exact passes_nil _
  | cons c s ih =>
    exact (balanced_char (h c List.mem_cons_self)).append
      (ih fun d hd => h d (List.mem_cons_of_mem _ hd))

theorem Balanced.block {s : List Char} (h : Balanced s) : Balanced ('{' :: s ++ ['}']) := by
  intro depth t
  -- The text is passed one block deeper, and the brace behind it leads out of that block again.
  have hinner : closing (depth + 1) .outside (s ++ '}' :: t) =
      (closing depth .outside t).map fun cut => (s ++ '}' :: cut.1, cut.2) := by
    rw [h]
    simp [closing, Function.comp_def]
  simp [closing, Quoting.next, hinner, Function.comp_def]

/-- A balanced text is cut off at the brace that follows it. -/
theorem cutBlock_of_balanced {s : List Char} (h : Balanced s) (t : List Char) :
    cutBlock (s ++ '}' :: t) = some (s, t) := by
  unfold cutBlock
  rw [h]
  simp [closing]

/-! ## §3 Strings of JSON texts -/

private theorem hexDigit_ne : ∀ n < 16, Json.hexDigit n ≠ '"' ∧ Json.hexDigit n ≠ '\\' := by
  decide

theorem passes_inside {c : Char} (h : c ≠ '"' ∧ c ≠ '\\') :
    Passes .inside .inside [c] := by
  have hnext : Quoting.inside.next c = .inside := by simp [Quoting.next, h.1, h.2]
  have hpass := passes_char (q := .inside) (c := c) (by simp)
  rwa [hnext] at hpass

theorem passes_escape (c : Char) : Passes .inside .inside ['\\', c] := by
  -- The backslash leads to the escaped position, where any character leads back.
  have hslash : Passes .inside .escaped ['\\'] := passes_char (q := .inside) (by simp)
  have hchar : Passes .escaped .inside [c] := passes_char (q := .escaped) (by simp)
  exact hslash.append hchar

theorem passes_escapeChar (c : Char) : Passes .inside .inside (Json.escapeChar c) := by
  have hzero : Passes .inside .inside ['0'] := passes_inside (by decide)
  unfold Json.escapeChar
  split_ifs with hquote hslash hback htab hline hform hreturn hcontrol
  · exact passes_escape '"'
  · exact passes_escape '\\'
  · exact passes_escape 'b'
  · exact passes_escape 't'
  · exact passes_escape 'n'
  · exact passes_escape 'f'
  · exact passes_escape 'r'
  · -- Two zeros and two hexadecimal digits, none of which is a quote or a backslash.
    have hhigh := passes_inside (hexDigit_ne (c.toNat / 16) (by omega))
    have hlow := passes_inside (hexDigit_ne (c.toNat % 16) (by omega))
    exact (passes_escape 'u').append (hzero.append (hzero.append (hhigh.append hlow)))
  · exact passes_inside ⟨hquote, hslash⟩

/-- A string literal is balanced, whatever the string holds. -/
theorem balanced_literal (s : String) : Balanced (Json.literal s) := by
  have hbody : Passes .inside .inside (s.toList.flatMap Json.escapeChar) := by
    induction s.toList with
    | nil => exact passes_nil _
    | cons c cs ih => exact (passes_escapeChar c).append ih
  -- The quotes lead into the string and out of it again.
  have hopen : Passes .outside .inside ['"'] := passes_char (q := .outside) (by simp)
  have hclose : Passes .inside .outside ['"'] := passes_char (q := .inside) (by simp)
  exact hopen.append (hbody.append hclose)

/-! ## §4 Numbers of JSON texts -/

/-- A character that numbers are written with. -/
private def IsNumeric (c : Char) : Prop :=
  c.isDigit ∨ c = '-' ∨ c = '+' ∨ c = '.' ∨ c = 'e'

private theorem IsNumeric.isPlain {c : Char} (h : IsNumeric c) : IsPlain c := by
  refine ⟨?_, ?_, ?_⟩ <;> rintro rfl <;> simp [IsNumeric] at h

private theorem isNumeric_of_mem_digitsOf {n : Nat} {c : Char} (h : c ∈ Json.digitsOf n) :
    IsNumeric c :=
  Or.inl (Nat.isDigit_of_mem_toDigits (by decide) (by decide) h)

private theorem isNumeric_of_mem_renderInt {n : Int} {c : Char} (h : c ∈ Json.renderInt n) :
    IsNumeric c := by
  unfold Json.renderInt at h
  split at h
  · rcases List.mem_cons.1 h with rfl | h
    · exact Or.inr (Or.inl rfl)
    · exact isNumeric_of_mem_digitsOf h
  · exact isNumeric_of_mem_digitsOf h

private theorem isNumeric_of_mem_renderExponent {n : Int} {c : Char}
    (h : c ∈ Json.renderExponent n) : IsNumeric c := by
  unfold Json.renderExponent at h
  simp only [List.mem_cons] at h
  rcases h with rfl | rfl | h
  · simp [IsNumeric]
  · by_cases hn : n < 0 <;> simp [IsNumeric, hn]
  · exact isNumeric_of_mem_digitsOf h

private theorem isNumeric_of_mem_renderDecimal {d : Decimal.Scientific} {c : Char}
    (h : c ∈ Json.renderDecimal d) : IsNumeric c := by
  have hzero : IsNumeric '0' := Or.inl (by decide)
  have hpoint : IsNumeric '.' := by simp [IsNumeric]
  have hdigits : ∀ {c}, c ∈ Json.digitsOf d.digits → IsNumeric c := isNumeric_of_mem_digitsOf
  simp only [Json.renderDecimal] at h
  split at h
  · -- The digits, zeros up to the point, and one zero behind it.
    simp only [List.mem_append, List.mem_replicate, List.mem_cons, List.not_mem_nil,
      or_false] at h
    rcases h with (h | ⟨-, rfl⟩) | rfl | rfl
    · exact hdigits h
    · exact hzero
    · exact hpoint
    · exact hzero
  split at h
  · -- The digits with a point between them.
    simp only [List.mem_append, List.mem_singleton] at h
    rcases h with (h | rfl) | h
    · exact hdigits (List.mem_of_mem_take h)
    · exact hpoint
    · exact hdigits (List.mem_of_mem_drop h)
  split at h
  · -- Zeros behind the point, and the digits.
    simp only [List.mem_append, List.mem_replicate, List.mem_cons, List.not_mem_nil,
      or_false] at h
    rcases h with ((rfl | rfl) | ⟨-, rfl⟩) | h
    · exact hzero
    · exact hpoint
    · exact hzero
    · exact hdigits h
  · -- The first digit, the others behind a point, and an exponent.
    split at h
    · rename_i digit heq
      rcases List.mem_cons.1 h with rfl | h
      · exact hdigits (by rw [heq]; exact List.mem_cons_self)
      · exact isNumeric_of_mem_renderExponent h
    · rename_i first others _ heq
      simp only [List.mem_cons, List.mem_append] at h
      rcases h with (rfl | rfl | h) | h
      · exact hdigits (by rw [heq]; exact List.mem_cons_self)
      · exact hpoint
      · exact hdigits (by rw [heq]; exact List.mem_cons_of_mem _ h)
      · exact isNumeric_of_mem_renderExponent h
    · exact absurd h List.not_mem_nil

theorem balanced_renderNumber (n : Json.Number) : Balanced (Json.renderNumber n) := by
  apply balanced_of_plain
  intro c hc
  apply IsNumeric.isPlain
  cases n with
  | integer n _ => exact isNumeric_of_mem_renderInt hc
  | float x =>
    simp only [Json.renderNumber, Json.renderFloat] at hc
    split at hc
    · rcases List.mem_cons.1 hc with rfl | hc
      · exact Or.inr (Or.inl rfl)
      · exact isNumeric_of_mem_renderDecimal hc
    · exact isNumeric_of_mem_renderDecimal hc

/-! ## §5 JSON texts -/

open Json (Value)

mutual

/-- Printed JSON is balanced. -/
theorem balanced_render : (v : Value) → Balanced v.render
  | .null => balanced_of_plain (by simp [Value.render, IsPlain])
  | .bool true => balanced_of_plain (by simp [Value.render, IsPlain])
  | .bool false => balanced_of_plain (by simp [Value.render, IsPlain])
  | .number n => balanced_renderNumber n
  | .string s => balanced_literal s
  | .array items => by
    have hopen : Balanced ['['] := balanced_char (by decide)
    have hclose : Balanced [']'] := balanced_char (by decide)
    exact hopen.append ((balanced_renderItems items).append hclose)
  -- The braces around the members make a block of their own.
  | .object members => (balanced_renderMembers members).block

theorem balanced_renderItems : (items : List Value) → Balanced (Value.renderItems items)
  | [] => passes_nil _
  | [v] => balanced_render v
  | v :: w :: rest => by
    have hcomma : Balanced [','] := balanced_char (by decide)
    exact (balanced_render v).append (hcomma.append (balanced_renderItems (w :: rest)))

theorem balanced_renderMembers :
    (members : List (String × Value)) → Balanced (Value.renderMembers members)
  | [] => passes_nil _
  | [(k, v)] => by
    have hcolon : Balanced [':'] := balanced_char (by decide)
    exact (balanced_literal k).append (hcolon.append (balanced_render v))
  | (k, v) :: m :: rest => by
    have hcolon : Balanced [':'] := balanced_char (by decide)
    have hcomma : Balanced [','] := balanced_char (by decide)
    have hmember := (balanced_literal k).append (hcolon.append (balanced_render v))
    exact hmember.append (hcomma.append (balanced_renderMembers (m :: rest)))

end

end ListQuery.Relation
