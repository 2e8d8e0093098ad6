import ListQuery.Proofs.Relation.Balance
import ListQuery.Relation.Entry
import ListQuery.Text.Split

/-!
# Levels made of parts

A level that is written as parts with commas between them has one group of pieces for each part,
provided that every part is an *entry text*: it is not empty, all its commas stand within blocks,
and all its braces are closed.

The cut into pieces is local. A text without an unclosed brace is cut in the same way whatever
stands behind it, and this carries the whole argument (`pieces_append`).

## Main statements

- `pieces_append`: the pieces of a text that leaves no brace open come before those of the rest;
- `groups_pieces_join`: the groups of a level that is made of entry texts;
- `IsEntryText.entries_append`: the first entry of a level.
-/

namespace ListQuery.Relation

open Text (byteLength)

/-! ## §1 The pieces of a text -/

theorem pieces_nil : pieces [] = [] := by
  rw [pieces]

theorem pieces_ne_nil {s : List Char} (h : s ≠ []) : pieces s ≠ [] := by
  intro hnil
  rw [← texts_pieces s, hnil] at h
  exact h rfl

theorem pieces_comma (s : List Char) : pieces (',' :: s) = .comma :: pieces s := by
  rw [pieces, if_pos rfl]

theorem pieces_char {c : Char} (hcomma : c ≠ ',') (hopen : c ≠ '{') (s : List Char) :
    pieces (c :: s) = .char c :: pieces s := by
  rw [pieces, if_neg hcomma, if_neg hopen]

theorem pieces_of_cutBlock {s body rest : List Char} (h : cutBlock s = some (body, rest)) :
    pieces ('{' :: s) = .block body :: pieces rest := by
  rw [pieces, if_neg (by decide), if_pos rfl]
  split
  · rename_i heq
    obtain ⟨rfl, rfl⟩ := Prod.mk.inj (Option.some.inj (h.symm.trans heq))
    rfl
  · rename_i heq
    exact absurd (h.symm.trans heq) (by simp)

theorem pieces_of_cutBlock_eq_none {s : List Char} (h : cutBlock s = none) :
    pieces ('{' :: s) = [.unclosed s] := by
  rw [pieces, if_neg (by decide), if_pos rfl]
  split
  · rename_i heq
    exact absurd (h.symm.trans heq) (by simp)
  · rfl

theorem pieces_block {body : List Char} (h : Balanced body) (t : List Char) :
    pieces ('{' :: body ++ '}' :: t) = .block body :: pieces t :=
  pieces_of_cutBlock (cutBlock_of_balanced h t)

/-- A text without commas and opening braces is cut into its characters. -/
theorem pieces_plain_append {s : List Char} (h : ∀ c ∈ s, c ≠ ',' ∧ c ≠ '{') (t : List Char) :
    pieces (s ++ t) = s.map .char ++ pieces t := by
  -- No character of the text starts a piece that could reach beyond it.
  induction s with
  | nil => rfl
  | cons c s ih =>
    obtain ⟨hcomma, hopen⟩ := h c List.mem_cons_self
    have hrest := ih fun d hd => h d (List.mem_cons_of_mem _ hd)
    rw [List.cons_append, pieces_char hcomma hopen, hrest]
    rfl

theorem char_of_mem_pieces {s : List Char} {c : Char} (h : Piece.char c ∈ pieces s) :
    c ≠ ',' ∧ c ≠ '{' := by
  fun_induction pieces s with
  | case1 => simp at h
  | case2 s ih => exact ih (by simpa using h)
  | case3 s body rest _ _ ih => exact ih (by simpa using h)
  | case4 s _ _ => simp at h
  | case5 d s hcomma hopen ih =>
    rcases List.mem_cons.1 h with heq | h
    · obtain rfl := Piece.char.inj heq
      exact ⟨hcomma, hopen⟩
    · exact ih h

theorem texts_append (ps qs : List Piece) : texts (ps ++ qs) = texts ps ++ texts qs :=
  List.flatMap_append

theorem eq_texts_append {s : List Char} {ps qs : List Piece} (h : pieces s = ps ++ qs) :
    s = texts ps ++ texts qs := by
  rw [← texts_append, ← h, texts_pieces]

/-- The pieces of a text that leaves no brace open come before those of the rest. -/
theorem pieces_append {s : List Char} (h : ∀ body, Piece.unclosed body ∉ pieces s)
    (t : List Char) : pieces (s ++ t) = pieces s ++ pieces t := by
  -- The induction follows the cut of the first text, piece by piece.
  fun_induction pieces s with
  | case1 => rfl
  | case2 s ih =>
    rw [List.cons_append, pieces_comma, ih fun body hb => h body (List.mem_cons_of_mem _ hb)]
    rfl
  | case3 s body rest hcut _ ih =>
    -- The brace that closes the block is found in the longer text as well.
    have hcut' : cutBlock (s ++ t) = some (body, rest ++ t) := closing_append t hcut
    rw [List.cons_append, pieces_of_cutBlock hcut',
      ih fun b hb => h b (List.mem_cons_of_mem _ hb)]
    rfl
  -- An open brace without an end would reach into the second text.
  | case4 s _ _ => exact absurd List.mem_cons_self (h s)
  | case5 c s hcomma hopen ih =>
    rw [List.cons_append, pieces_char hcomma hopen,
      ih fun body hb => h body (List.mem_cons_of_mem _ hb)]
    rfl

/-! ## §2 Groups -/

theorem groups_append_comma {ps : List Piece} (h : Piece.comma ∉ ps) (qs : List Piece) :
    groups (ps ++ .comma :: qs) = ps :: groups qs := by
  induction ps with
  | nil => rfl
  | cons p ps ih =>
    obtain ⟨hp, hps⟩ := not_or.1 fun hmem => h (List.mem_cons.2 hmem)
    rw [List.cons_append, groups, ih hps]
    exact fun heq => hp heq.symm

theorem groups_of_no_comma {ps : List Piece} (h : Piece.comma ∉ ps) (hne : ps ≠ []) :
    groups ps = [ps] := by
  induction ps with
  | nil => exact absurd rfl hne
  | cons p ps ih =>
    obtain ⟨hp, hps⟩ := not_or.1 fun hmem => h (List.mem_cons.2 hmem)
    rw [groups]
    · cases ps with
      | nil => rfl
      | cons q ps => rw [ih hps (by simp)]
    · exact fun heq => hp heq.symm

/-- Pieces without a comma are one group, if there are any. -/
theorem eq_of_mem_groups {ps g : List Piece} (h : Piece.comma ∉ ps) (hg : g ∈ groups ps) :
    g = ps ∧ ps ≠ [] := by
  cases ps with
  | nil => exact absurd hg List.not_mem_nil
  | cons p ps =>
    rw [groups_of_no_comma h (List.cons_ne_nil p ps)] at hg
    exact ⟨List.mem_singleton.1 hg, List.cons_ne_nil p ps⟩

/-- Groups hold no other pieces than those that are grouped. -/
theorem mem_of_mem_groups {ps g : List Piece} (hg : g ∈ groups ps) {p : Piece} (hp : p ∈ g) :
    p ∈ ps := by
  fun_induction groups ps generalizing g with
  | case1 => exact absurd hg List.not_mem_nil
  | case2 ps ih =>
    rcases List.mem_cons.1 hg with rfl | hg
    · exact absurd hp List.not_mem_nil
    · exact List.mem_cons_of_mem _ (ih hg hp)
  | case3 d ps _ hnil ih =>
    obtain rfl := List.mem_singleton.1 hg
    obtain rfl := List.mem_singleton.1 hp
    exact List.mem_cons_self
  | case4 d ps _ g' gs hcons ih =>
    rcases List.mem_cons.1 hg with rfl | hg
    · rcases List.mem_cons.1 hp with rfl | hp
      · exact List.mem_cons_self
      · exact List.mem_cons_of_mem _ (ih (hcons ▸ List.mem_cons_self) hp)
    · exact List.mem_cons_of_mem _ (ih (hcons ▸ List.mem_cons_of_mem _ hg) hp)

/-- A piece is in one of the groups, unless it is a comma. -/
theorem exists_mem_groups {ps : List Piece} {p : Piece} (hp : p ∈ ps) (hcomma : p ≠ .comma) :
    ∃ g ∈ groups ps, p ∈ g := by
  fun_induction groups ps with
  | case1 => exact absurd hp List.not_mem_nil
  | case2 ps ih =>
    obtain ⟨g, hg, hmem⟩ := ih ((List.mem_cons.1 hp).resolve_left hcomma)
    exact ⟨g, List.mem_cons_of_mem _ hg, hmem⟩
  | case3 d ps _ hnil ih =>
    rcases List.mem_cons.1 hp with rfl | hp
    · exact ⟨[p], List.mem_cons_self, List.mem_cons_self⟩
    · obtain ⟨g, hg, -⟩ := ih hp
      rw [hnil] at hg
      exact absurd hg List.not_mem_nil
  | case4 d ps _ g gs hcons ih =>
    rcases List.mem_cons.1 hp with rfl | hp
    · exact ⟨p :: g, List.mem_cons_self, List.mem_cons_self⟩
    · obtain ⟨g', hg', hmem⟩ := ih hp
      rw [hcons] at hg'
      rcases List.mem_cons.1 hg' with rfl | hg'
      · exact ⟨d :: g', List.mem_cons_self, List.mem_cons_of_mem _ hmem⟩
      · exact ⟨g', List.mem_cons_of_mem _ hg', hmem⟩

/-- No group holds a comma. -/
theorem comma_notMem_of_mem_groups {ps g : List Piece} (hg : g ∈ groups ps) :
    Piece.comma ∉ g := by
  fun_induction groups ps generalizing g with
  | case1 => exact absurd hg List.not_mem_nil
  | case2 ps ih =>
    rcases List.mem_cons.1 hg with rfl | hg
    · exact List.not_mem_nil
    · exact ih hg
  | case3 d ps hd _ _ =>
    obtain rfl := List.mem_singleton.1 hg
    simpa using fun heq => hd heq.symm
  | case4 d ps hd g' gs hcons ih =>
    rw [hcons] at ih
    rcases List.mem_cons.1 hg with rfl | hg
    · have hg' := ih List.mem_cons_self
      simpa [hg'] using fun heq => hd heq.symm
    · exact ih (List.mem_cons_of_mem _ hg)

/-! ## §3 Entry texts -/

/-- A text that makes up one entry of a level, whatever entries stand beside it. -/
structure IsEntryText (s : List Char) : Prop where
  nonempty : s ≠ []
  noComma : Piece.comma ∉ pieces s
  closed : ∀ body, Piece.unclosed body ∉ pieces s

theorem IsEntryText.pieces_ne_nil {s : List Char} (h : IsEntryText s) : pieces s ≠ [] :=
  Relation.pieces_ne_nil h.nonempty

/-- Every entry text of a level makes up a group. -/
theorem groups_pieces_join {parts : List (List Char)} (h : ∀ s ∈ parts, IsEntryText s) :
    groups (pieces (Text.join [','] parts)) = parts.map pieces := by
  induction parts with
  | nil => rw [Text.join, pieces_nil]; rfl
  | cons s rest ih =>
    have hs := h s List.mem_cons_self
    have hrest := ih fun t ht => h t (List.mem_cons_of_mem _ ht)
    cases rest with
    | nil => exact groups_of_no_comma hs.noComma hs.pieces_ne_nil
    | cons t rest =>
      have hjoin : Text.join [','] (s :: t :: rest) =
          s ++ ',' :: Text.join [','] (t :: rest) := by
        simp [Text.join]
      -- The first comma outside blocks is the one behind the first part.
      rw [hjoin, pieces_append hs.closed, pieces_comma, groups_append_comma hs.noComma, hrest]
      rfl

theorem entries_join {parts : List (List Char)} (h : ∀ s ∈ parts, IsEntryText s)
    (offset : Nat) :
    (⟨Text.join [','] parts, offset⟩ : Span).entries =
      Entry.ofGroups offset (parts.map pieces) := by
  unfold Span.entries
  rw [groups_pieces_join h]

theorem entries_nil (offset : Nat) : (⟨[], offset⟩ : Span).entries = [] := by
  unfold Span.entries
  rw [pieces_nil]
  rfl

/-- A level of one entry text has one entry. -/
theorem IsEntryText.entries {s : List Char} (h : IsEntryText s) (offset : Nat) :
    (⟨s, offset⟩ : Span).entries = [Entry.ofPieces offset (pieces s)] := by
  unfold Span.entries
  rw [groups_of_no_comma h.noComma h.pieces_ne_nil]
  rfl

/-- An entry text and a comma make up the first entry of a level, and the text behind the comma the
    other ones. -/
theorem IsEntryText.entries_append {s : List Char} (h : IsEntryText s) (t : List Char)
    (offset : Nat) :
    (⟨s ++ ',' :: t, offset⟩ : Span).entries =
      Entry.ofPieces offset (pieces s) :: (⟨t, offset + byteLength s + 1⟩ : Span).entries := by
  unfold Span.entries
  rw [pieces_append h.closed, pieces_comma, groups_append_comma h.noComma, Entry.ofGroups,
    texts_pieces]

end ListQuery.Relation
