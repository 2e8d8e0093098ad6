import ListQuery.Proofs.Relation.ByteReading

/-!
# Positions at a level

In a text that is a level, some positions lie inside of blocks, and some behind a brace that is
never closed. All others lie *at the level*. Which braces open a block is told by the positions in
front of them, as a brace inside of another block opens none: so a position lies at the level if
every opening brace at the level in front of it is closed in front of it.

The pieces of a level start at such positions, and no byte within a block lies at one.

## Main definitions

- `AtLevel`: a position lies at the level of a text.

## Main statements

- `atLevel_of_pieces`: pieces start at the level;
- `eq_of_atLevel`: a byte at the level that is no opening brace is a piece by itself.
-/

namespace ListQuery.Relation

open Text (byteLength bytes dropBytes)

/-- A position lies at the level of a text: every opening brace at the level in front of it is
    closed in front of it. -/
def AtLevel (source : List Char) (p : Nat) : Prop :=
  ∀ o, o < p → (bytes source)[o]? = some '{'.toUInt8 → AtLevel source o →
    ∃ c, c < p ∧ closeAt? source o = some c
termination_by p

variable {source : List Char} {front back : List Piece} {p : Piece} {i : Nat}

/-! ## §1 Pieces and their positions -/

/-- A byte of pieces is a byte of one of them. -/
theorem exists_piece_at {ps : List Piece} {k : Nat} (hk : k < byteLength (texts ps)) :
    ∃ front p back i, ps = front ++ p :: back ∧ k = byteLength (texts front) + i ∧
      i < byteLength p.text := by
  induction ps generalizing k with
  | nil => exact absurd hk (Nat.not_lt_zero k)
  | cons p ps ih =>
    by_cases hp : k < byteLength p.text
    · exact ⟨[], p, ps, k, rfl, (Nat.zero_add k).symm, hp⟩
    · rw [texts_cons, Text.byteLength_append] at hk
      obtain ⟨front, q, back, i, rfl, heq, hi⟩ := ih (k := k - byteLength p.text) (by omega)
      refine ⟨p :: front, q, back, i, rfl, ?_, hi⟩
      rw [texts_cons, Text.byteLength_append]
      omega

/-- The bytes of a piece stand in the text behind those of the pieces in front of it. -/
theorem getElem?_bytes_piece (h : pieces source = front ++ p :: back) (hi : i < byteLength p.text) :
    (bytes source)[byteLength (texts front) + i]? = (bytes p.text)[i]? := by
  rw [eq_texts_append h, texts_cons, Text.bytes_append, Text.bytes_append, ← Text.length_bytes,
    List.getElem?_append_right (Nat.le_add_right _ _), Nat.add_sub_cancel_left,
    List.getElem?_append_left (by rwa [Text.length_bytes])]

/-- What stands behind an unclosed brace is no piece, so it is the last one. -/
theorem unclosed_notMem (h : pieces source = front ++ p :: back) (body : List Char) :
    .unclosed body ∉ front := by
  intro hmem
  obtain ⟨first, last, rfl⟩ := List.append_of_mem hmem
  rw [List.append_assoc, List.cons_append] at h
  exact absurd (eq_nil_of_unclosed h) (by simp)

section Blocks

variable {body : List Char}

theorem cutBlock_of_pieces (h : pieces source = front ++ .block body :: back) :
    cutBlock (body ++ '}' :: texts back) = some (body, texts back) := by
  have hpieces := pieces_texts_of_append h
  have htext : texts (.block body :: back) = '{' :: (body ++ '}' :: texts back) := by
    simp [Piece.text]
  rw [htext] at hpieces
  cases hcut : cutBlock (body ++ '}' :: texts back) with
  | none =>
    rw [pieces_of_cutBlock_eq_none hcut] at hpieces
    cases hpieces
  | some parts =>
    obtain ⟨body', rest⟩ := parts
    rw [pieces_of_cutBlock hcut] at hpieces
    obtain ⟨hbody, hrest⟩ := List.cons.inj hpieces
    rw [Piece.block.inj hbody, ← hrest, texts_pieces]

/-- A block is closed by its last byte. -/
theorem closeAt?_of_block (h : pieces source = front ++ .block body :: back) :
    closeAt? source (byteLength (texts front)) =
      some (byteLength (texts front) + 1 + byteLength body) := by
  have htext : texts (.block body :: back) = '{' :: (body ++ '}' :: texts back) := by
    simp [Piece.text]
  rw [closeAt?, eq_texts_append h, Text.dropBytes_append, htext]
  show (cutBlock (body ++ '}' :: texts back)).map _ = _
  rw [cutBlock_of_pieces h]
  rfl

theorem closeAt?_of_unclosed (h : pieces source = front ++ .unclosed body :: back) :
    closeAt? source (byteLength (texts front)) = none := by
  obtain rfl := eq_nil_of_unclosed h
  have hpieces := pieces_texts_of_append h
  have htext : texts [.unclosed body] = '{' :: body := by simp [Piece.text]
  rw [closeAt?, eq_texts_append h, Text.dropBytes_append, htext]
  rw [htext] at hpieces
  show (cutBlock body).map _ = _
  cases hcut : cutBlock body with
  | none => rfl
  | some parts =>
    rw [pieces_of_cutBlock hcut] at hpieces
    cases hpieces

end Blocks

/-! ## §2 The level of a text -/

/-- A character that is a piece has no byte of an ASCII character but its own. -/
theorem eq_of_getElem?_bytes_char {c d : Char} (hd : d.toNat < 0x80)
    (h : (bytes [c])[i]? = some d.toUInt8) : c = d ∧ i = 0 := by
  have hbytes : bytes [c] = String.utf8EncodeChar c := List.append_nil _
  rw [hbytes] at h
  obtain rfl := (Text.toUInt8_mem_utf8EncodeChar_iff hd).1 (List.mem_of_getElem? h)
  rw [Text.utf8EncodeChar_ascii hd] at h
  obtain ⟨hlt, -⟩ := List.getElem?_eq_some_iff.1 h
  exact ⟨rfl, Nat.lt_one_iff.1 hlt⟩

/-- Pieces start at the level. -/
theorem atLevel_of_pieces (h : pieces source = front ++ back)
    (hclosed : ∀ body, .unclosed body ∉ front) : AtLevel source (byteLength (texts front)) := by
  -- The braces in front are those of earlier pieces, of which the statement is known.
  induction hlength : front.length using Nat.strong_induction_on generalizing front back with
  | _ n ih =>
  rw [AtLevel]
  intro o ho hbyte hlevel
  obtain ⟨first, p, last, i, rfl, rfl, hi⟩ := exists_piece_at ho
  have hpieces : pieces source = first ++ p :: (last ++ back) := by
    rw [h, List.append_assoc, List.cons_append]
  have hfirst : AtLevel source (byteLength (texts first)) :=
    ih first.length (by simp [← hlength]) hpieces
      (fun body hmem => hclosed body (List.mem_append_left _ hmem)) rfl
  rw [getElem?_bytes_piece hpieces hi] at hbyte
  cases p with
  | comma => exact absurd (eq_of_getElem?_bytes_char (by decide) hbyte).1 (by decide)
  | char c =>
    obtain ⟨rfl, -⟩ := eq_of_getElem?_bytes_char (by decide) hbyte
    exact absurd rfl (char_of_mem_pieces (by rw [hpieces]; simp)).2
  | unclosed body => exact absurd (by simp) (hclosed body)
  | block body =>
    have hclose := closeAt?_of_block hpieces
    rw [texts_append, texts_cons, Text.byteLength_append, Text.byteLength_append] at ho ⊢
    rw [byteLength_block] at hi ⊢
    cases i with
    | zero => exact ⟨_, by omega, hclose⟩
    | succ i =>
      -- The brace at the front of the block is closed behind all others in the block.
      rw [AtLevel] at hlevel
      have hopen : (bytes source)[byteLength (texts first)]? = some '{'.toUInt8 := by
        have hfront := getElem?_bytes_piece (i := 0) hpieces (by rw [byteLength_block]; omega)
        exact hfront.trans rfl
      obtain ⟨c, hc, hfound⟩ := hlevel _ (by omega) hopen hfirst
      obtain rfl := Option.some.inj (hclose.symm.trans hfound)
      omega

/-- Nothing behind the first byte of a block lies at the level. -/
theorem eq_zero_of_atLevel (h : pieces source = front ++ p :: back) (hi : i < byteLength p.text)
    (hbrace : p.text.head? = some '{') (hlevel : AtLevel source (byteLength (texts front) + i)) :
    i = 0 := by
  have hfront := atLevel_of_pieces h (unclosed_notMem h)
  obtain ⟨s, hs⟩ := List.head?_eq_some_iff.1 hbrace
  have hopen : (bytes source)[byteLength (texts front)]? = some '{'.toUInt8 := by
    rw [← Nat.add_zero (byteLength _), getElem?_bytes_piece h (by omega), hs]
    rfl
  by_contra hne
  rw [AtLevel] at hlevel
  obtain ⟨c, hc, hclose⟩ := hlevel _ (by omega) hopen hfront
  cases p with
  | comma => cases hs
  | char c =>
    obtain rfl := (List.cons.inj hs).1
    exact absurd rfl (char_of_mem_pieces (by rw [h]; simp)).2
  | unclosed body => exact absurd ((closeAt?_of_unclosed h).symm.trans hclose) nofun
  | block body =>
    obtain rfl := Option.some.inj ((closeAt?_of_block h).symm.trans hclose)
    rw [byteLength_block] at hi
    omega

/-- A byte at the level that is no opening brace is a piece by itself. -/
theorem eq_of_atLevel {d : Char} (hd : d.toNat < 0x80) (hne : d ≠ '{')
    (h : pieces source = front ++ p :: back) (hi : i < byteLength p.text)
    (hbyte : (bytes source)[byteLength (texts front) + i]? = some d.toUInt8)
    (hlevel : AtLevel source (byteLength (texts front) + i)) : p.text = [d] ∧ i = 0 := by
  rw [getElem?_bytes_piece h hi] at hbyte
  have hbrace (hhead : p.text.head? = some '{') : p.text = [d] ∧ i = 0 := by
    obtain rfl := eq_zero_of_atLevel h hi hhead hlevel
    obtain ⟨s, hs⟩ := List.head?_eq_some_iff.1 hhead
    obtain ⟨rest, hrest⟩ := (Text.getElem?_bytes_eq_toUInt8_iff hd).1 hbyte
    rw [hs] at hrest
    exact absurd (List.cons.inj (Option.some.inj hrest)).1.symm hne
  cases p with
  | comma =>
    obtain ⟨rfl, rfl⟩ := eq_of_getElem?_bytes_char hd hbyte
    exact ⟨rfl, rfl⟩
  | char c =>
    obtain ⟨rfl, rfl⟩ := eq_of_getElem?_bytes_char hd hbyte
    exact ⟨rfl, rfl⟩
  | block body => exact hbrace rfl
  | unclosed body => exact hbrace rfl

end ListQuery.Relation
