import ListQuery.Proofs.Relation.Written
import ListQuery.Proofs.Text.Padding
import ListQuery.Proofs.Text.Range

/-!
# Positions of entries

The positions in an entry count bytes of the text that its level is a part of. An entry stands
*within* a text when its name, its block, the text behind its block and its first closing brace that
closes nothing are found in that text at their positions.

The entries of a level that is a part of a text stand within it: the pieces make up the text of the
level, and the group of an entry starts behind the pieces in front of it.

## Main definitions

- `Entry.Within`: the entry stands within a text;
- `Span.IsLevelOf`: the span is a level of a text.

## Main statements

- `exists_of_mem_ofGroups`: where the group of an entry stands among the pieces;
- `Span.IsLevelOf.within_of_mem`: the entries of a level stand within the text.
-/

namespace ListQuery.Relation

open Text (byteLength dropBytes dropBytes_add)

/-! ## §1 Entries among the pieces -/

theorem text_ne_nil (p : Piece) : p.text ≠ [] := by
  cases p <;> exact List.cons_ne_nil _ _

theorem texts_eq_nil_iff {ps : List Piece} : texts ps = [] ↔ ps = [] := by
  cases ps with
  | nil => exact iff_of_true rfl rfl
  | cons p ps =>
    rw [texts_cons, List.append_eq_nil_iff]
    exact iff_of_false (fun h => text_ne_nil p h.1) (List.cons_ne_nil p ps)

/-- An entry is made of pieces that stand behind others and in front of a comma, or of the last
    pieces. -/
theorem exists_of_mem_ofGroups {ps : List Piece} {offset : Nat} {e : Entry}
    (h : e ∈ Entry.ofGroups offset (groups ps)) :
    ∃ front g rest, ps = front ++ g ++ rest ∧ g ++ rest ≠ [] ∧ (∀ p ∈ rest.head?, p = .comma) ∧
      e = Entry.ofPieces (offset + byteLength (texts front)) g := by
  obtain ⟨es, es', heq⟩ := List.append_of_mem h
  obtain ⟨front, g, rest, hps, hne, -, hhead, -, he, -⟩ := exists_of_ofGroups_eq heq
  exact ⟨front, g, rest, hps, hne, hhead, he⟩

/-! ## §2 Entries within a text -/

variable {source : List Char}

/-- Every part of the entry stands at its position in a text. -/
structure Entry.Within (source : List Char) (e : Entry) : Prop where
  /-- Behind the name there are only blanks in front of a comma, a brace, or the end. -/
  name : ∃ rest, dropBytes e.name.offset source = some (e.name.text ++ rest) ∧
    e.name.text ++ rest ≠ [] ∧ ∀ c ∈ (Text.trimStart rest).head?, c = ',' ∨ c = '{' ∨ c = '}'
  block : ∀ b ∈ e.block, ∃ rest, dropBytes b.openAt source = some ('{' :: (b.body ++ rest)) ∧
    (b.closed = true → rest.head? = some '}')
  trailing : ∃ rest, dropBytes e.trailing.offset source = some (e.trailing.text ++ rest)
  strayClose : ∀ offset ∈ e.strayClose, ∃ rest, dropBytes offset source = some ('}' :: rest)

/-- The first closing brace that closes nothing stands at its position. -/
theorem exists_of_strayClose? {ps : List Piece} {start offset : Nat} {rest : List Char}
    (h : dropBytes start source = some (texts ps ++ rest))
    (hstray : strayClose? start ps = some offset) :
    ∃ rest, dropBytes offset source = some ('}' :: rest) := by
  obtain ⟨f, qs, rfl, -, rfl⟩ := strayClose?_eq_some_iff.1 hstray
  rw [texts_append, List.append_assoc] at h
  exact ⟨texts qs ++ rest, dropBytes_add h⟩

/-- A block stands at its position. -/
theorem exists_of_block? {p : Piece} {offset : Nat} {b : Block} {rest : List Char}
    (h : dropBytes offset source = some (p.text ++ rest)) (hblock : p.block? offset = some b) :
    ∃ rest, dropBytes b.openAt source = some ('{' :: (b.body ++ rest)) ∧
      (b.closed = true → rest.head? = some '}') := by
  cases p with
  | comma => cases hblock
  | char c => cases hblock
  | block body =>
    obtain rfl := Option.some.inj hblock
    refine ⟨'}' :: rest, ?_, fun _ => rfl⟩
    rw [h]
    simp [Piece.text]
  | unclosed body =>
    obtain rfl := Option.some.inj hblock
    exact ⟨rest, h, Bool.noConfusion⟩

theorem head?_of_isChar_eq_false {p : Piece} (h : p.isChar = false) (s : List Char) :
    ∀ c ∈ (Text.trimStart (p.text ++ s)).head?, c = ',' ∨ c = '{' := by
  cases p with
  | char c => cases h
  | comma => simp [Piece.text, Text.trimStart, Text.isBlank]
  | block body => simp [Piece.text, Text.trimStart, Text.isBlank]
  | unclosed body => simp [Piece.text, Text.trimStart, Text.isBlank]

/-- The entry of pieces stands within a text where the pieces do. -/
theorem within_ofPieces {offset : Nat} {ps : List Piece} {rest : List Char}
    (h : dropBytes offset source = some (texts ps ++ rest)) (hne : texts ps ++ rest ≠ [])
    (hrest : ∀ c ∈ (Text.trimStart rest).head?, c = ',' ∨ c = '}') :
    (Entry.ofPieces offset ps).Within source := by
  have hstray : ∀ n ∈ (Entry.ofPieces offset ps).strayClose,
      ∃ rest, dropBytes n source = some ('}' :: rest) := by
    intro n hn
    rw [ofPieces_strayClose] at hn
    exact exists_of_strayClose? h hn
  obtain ⟨s, qs, rfl, hqs⟩ := exists_eq_map_char_append ps
  cases qs with
  | nil =>
    -- The entry is a name, and ends where the name does.
    rw [List.append_nil] at h hne hstray ⊢
    rw [texts_map_char] at h hne
    rw [ofPieces_chars] at hstray ⊢
    exact ⟨⟨rest, h, hne, fun c hc => (hrest c hc).imp_right Or.inr⟩, nofun,
      ⟨rest, dropBytes_add h⟩, hstray⟩
  | cons p qs =>
    have hp : p.isChar = false := hqs p rfl
    rw [texts_append, texts_map_char, texts_cons, List.append_assoc, List.append_assoc] at h hne
    rw [ofPieces_chars_cons offset s hp] at hstray ⊢
    have hblock : dropBytes (offset + byteLength s) source = some (p.text ++ (texts qs ++ rest)) :=
      dropBytes_add h
    refine ⟨⟨_, h, hne, fun c hc => ?_⟩, fun b hb => exists_of_block? hblock hb,
      ⟨rest, dropBytes_add hblock⟩, hstray⟩
    exact (head?_of_isChar_eq_false hp _ c hc).imp_right Or.inl

/-! ## §3 Levels -/

/-- A span that is a part of a text is one without its leading blanks. -/
theorem dropBytes_trimStart {s : Span} {rest : List Char}
    (h : dropBytes s.offset source = some (s.text ++ rest)) :
    dropBytes s.trimStart.offset source = some (s.trimStart.text ++ rest) := by
  rw [← Text.takeWhile_append_trimStart s.text, List.append_assoc] at h
  exact dropBytes_add h

/-- The block stands at its position, and is closed. -/
def Block.ClosesIn (source : List Char) (b : Block) : Prop :=
  ∃ rest, dropBytes b.openAt source = some ('{' :: (b.body ++ '}' :: rest))

/-- The span is a level of a text: it stands in the text, and behind it there are only blanks in
    front of a closing brace or the end. -/
def Span.IsLevelOf (source : List Char) (level : Span) : Prop :=
  ∃ rest, dropBytes level.offset source = some (level.text ++ rest) ∧
    ∀ c ∈ (Text.trimStart rest).head?, c = '}'

theorem isLevelOf_of_close {level : Span} {rest : List Char}
    (h : dropBytes level.offset source = some (level.text ++ '}' :: rest)) :
    level.IsLevelOf source :=
  ⟨_, h, by simp [Text.trimStart, Text.isBlank]⟩

/-- What stands in a closed block is a level. -/
theorem Block.ClosesIn.isLevelOf_content {b : Block} (h : b.ClosesIn source) :
    b.content.IsLevelOf source := by
  obtain ⟨rest, hrest⟩ := h
  exact isLevelOf_of_close (dropBytes_add (s := ['{']) hrest)

/-- The entries of a level stand within the text. -/
theorem Span.IsLevelOf.within_of_mem {level : Span} (h : level.IsLevelOf source) {e : Entry}
    (he : e ∈ level.entries) : e.Within source := by
  obtain ⟨rest, hlevel, hrest⟩ := h
  obtain ⟨front, g, behind, hpieces, hne, hhead, rfl⟩ := exists_of_mem_ofGroups he
  have htext : level.text = texts front ++ (texts g ++ texts behind) := by
    rw [eq_texts_append hpieces, texts_append, List.append_assoc]
  rw [htext, List.append_assoc, List.append_assoc] at hlevel
  refine within_ofPieces (dropBytes_add hlevel) ?_ ?_
  · rw [← List.append_assoc, ← texts_append]
    exact List.append_ne_nil_of_left_ne_nil (mt texts_eq_nil_iff.1 hne) rest
  · cases behind with
    | nil => exact fun c hc => Or.inr (hrest c hc)
    | cons p behind =>
      obtain rfl := hhead p rfl
      simp [Piece.text, Text.trimStart, Text.isBlank]

/-- The outermost level is a level of the source. -/
theorem isLevelOf_outermost (source : List Char) : (outermost source).IsLevelOf source := by
  obtain ⟨v, hv, htrim⟩ := Text.exists_trimEnd_append (Text.trimStart source)
  have hend : Text.trimStart v = [] := Text.trimStart_eq_nil_iff.2 hv
  have hdrop : dropBytes (byteLength (source.takeWhile Text.isBlank)) source =
      some (Text.trim source ++ v) :=
    Text.dropBytes_eq_some_iff.2 ⟨_, by rw [Text.trim, htrim, Text.takeWhile_append_trimStart], rfl⟩
  have hwhole : (⟨Text.trim source, byteLength (source.takeWhile Text.isBlank)⟩ : Span).IsLevelOf
      source := ⟨v, hdrop, by simp [hend]⟩
  unfold outermost
  dsimp only
  split
  · rename_i s htext
    split
    · -- What stands behind the level is the brace that was taken off.
      rename_i body hcut
      rw [htext, closing_eq_append hcut] at hdrop
      have hbody : '{' :: (body ++ ['}']) ++ v = ['{'] ++ (body ++ '}' :: v) := by simp
      rw [hbody] at hdrop
      exact isLevelOf_of_close (dropBytes_add hdrop)
    · exact htext ▸ hwhole
  · exact hwhole

end ListQuery.Relation
