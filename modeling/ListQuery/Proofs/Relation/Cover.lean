import ListQuery.Proofs.Relation.AtLevel
import ListQuery.Proofs.Relation.Position
import Mathlib.Order.Bounds.Basic

/-!
# Entries cover their level

The cut of a level into entries loses nothing and invents nothing. Written one after another with
commas between them, the entries make up the text of the level, but for one comma if a separator is
its last byte. Every position in an entry is the one at which the entry is written in this way. Its
block is closed by the brace that closes it in the text, and the closing brace that the entry
remembers is the first one in it that lies at the level.

A scan by positions that goes on from entry to entry ends, and finds these entries.

## Main definitions

- `levelBytes`: where a character stands at the level;
- `EndsInSeparator`: the last byte of a text is a comma at the level;
- `Entry.StandsBehind`: where an entry stands when others are written in front of it;
- `Span.scan`: the entries that are found by positions.

## Main statements

- `exists_of_mem_levelBytes`: a character that stands at the level is a piece;
- `isLeast_levelBytes`: the first closing brace among the pieces of an entry;
- `entries_cover`: the entries of a level cover it.
-/

namespace ListQuery.Relation

open Text (byteLength bytes)

/-! ## §1 Characters at the level -/

/-- The positions of a range at which a character stands at the level. -/
def levelBytes (source : List Char) (d : Char) (start stop : Nat) : Set Nat :=
  {p | start ≤ p ∧ p < stop ∧ (bytes source)[p]? = some d.toUInt8 ∧ AtLevel source p}

section Pieces

variable {source : List Char} {front g rest : List Piece}

/-- A character that stands at the level among some of the pieces is one of them. -/
theorem exists_of_mem_levelBytes (hpieces : pieces source = front ++ g ++ rest) {d : Char}
    (hd : d.toNat < 0x80) (hne : d ≠ '{') {n : Nat}
    (h : n ∈ levelBytes source d (byteLength (texts front)) (byteLength (texts (front ++ g)))) :
    ∃ f p b, g = f ++ p :: b ∧ p.text = [d] ∧ n = byteLength (texts (front ++ f)) := by
  obtain ⟨hstart, hstop, hbyte, hlevel⟩ := h
  rw [texts_append, Text.byteLength_append] at hstop
  obtain ⟨k, rfl⟩ := Nat.exists_eq_add_of_le hstart
  obtain ⟨f, p, b, i, rfl, rfl, hi⟩ := exists_piece_at (Nat.lt_of_add_lt_add_left hstop)
  have hwhole : pieces source = front ++ f ++ p :: (b ++ rest) := by simp [hpieces]
  have hposition : byteLength (texts front) + (byteLength (texts f) + i) =
      byteLength (texts (front ++ f)) + i := by
    rw [texts_append, Text.byteLength_append, Nat.add_assoc]
  rw [hposition] at hbyte hlevel ⊢
  obtain ⟨htext, rfl⟩ := eq_of_atLevel hd hne hwhole hi hbyte hlevel
  exact ⟨f, p, b, rfl, htext, rfl⟩

theorem eq_comma_of_text {p : Piece} (hmem : p ∈ pieces source) (h : p.text = [',']) :
    p = .comma := by
  cases p with
  | comma => rfl
  | char c => exact absurd (List.cons.inj h).1 (char_of_mem_pieces hmem).1
  | block body | unclosed body => exact absurd (List.cons.inj h).1 (by decide)

theorem eq_close_of_text {p : Piece} (h : p.text = ['}']) : p = .char '}' := by
  cases p with
  | char c => rw [(List.cons.inj h).1]
  | comma | block body | unclosed body => exact absurd (List.cons.inj h).1 (by decide)

/-- No comma at the level stands among pieces that are none. -/
theorem levelBytes_comma_eq_empty (hpieces : pieces source = front ++ g ++ rest)
    (hg : .comma ∉ g) :
    levelBytes source ',' (byteLength (texts front)) (byteLength (texts (front ++ g))) = ∅ := by
  refine Set.eq_empty_of_forall_notMem fun n hn => ?_
  obtain ⟨f, p, b, rfl, htext, -⟩ := exists_of_mem_levelBytes hpieces (by decide) (by decide) hn
  have hmem : p ∈ pieces source := by simp [hpieces]
  obtain rfl := eq_comma_of_text hmem htext
  exact hg (by simp)

/-- The first closing brace among some of the pieces is the first one at the level. -/
theorem isLeast_levelBytes {f b : List Piece} (hf : .char '}' ∉ f)
    (hpieces : pieces source = front ++ (f ++ .char '}' :: b) ++ rest) :
    IsLeast (levelBytes source '}' (byteLength (texts front))
        (byteLength (texts (front ++ (f ++ .char '}' :: b)))))
      (byteLength (texts (front ++ f))) := by
  have hwhole : pieces source = front ++ f ++ .char '}' :: (b ++ rest) := by simp [hpieces]
  constructor
  · refine ⟨?_, ?_, ?_, atLevel_of_pieces hwhole (unclosed_notMem hwhole)⟩
    · rw [texts_append, Text.byteLength_append]
      exact Nat.le_add_right _ _
    · rw [← List.append_assoc, texts_append (front ++ f), Text.byteLength_append, texts_cons,
        Text.byteLength_append]
      have hsize : byteLength (Piece.char '}').text = 1 := rfl
      omega
    · exact getElem?_bytes_piece (i := 0) hwhole Nat.one_pos
  · -- An earlier one would be among the pieces in front of it.
    rintro n ⟨hstart, -, hbyte, hlevel⟩
    by_contra hlt
    have hmem : n ∈ levelBytes source '}' (byteLength (texts front))
        (byteLength (texts (front ++ f))) := ⟨hstart, Nat.lt_of_not_le hlt, hbyte, hlevel⟩
    have hfront : pieces source = front ++ f ++ (.char '}' :: b ++ rest) := by simp [hpieces]
    obtain ⟨f', p, b', rfl, htext, -⟩ :=
      exists_of_mem_levelBytes hfront (by decide) (by decide) hmem
    obtain rfl := eq_close_of_text htext
    exact hf (by simp)

/-- The brace that an entry of pieces remembers is the first one in it at the level. -/
theorem strayClose?_eq_some_iff_isLeast (hpieces : pieces source = front ++ g ++ rest)
    (base n : Nat) :
    strayClose? (base + byteLength (texts front)) g = some n ↔
      ∃ p, n = base + p ∧ IsLeast (levelBytes source '}' (byteLength (texts front))
        (byteLength (texts (front ++ g)))) p := by
  have hposition (f : List Piece) : base + byteLength (texts front) + byteLength (texts f) =
      base + byteLength (texts (front ++ f)) := by
    rw [texts_append, Text.byteLength_append, Nat.add_assoc]
  rw [strayClose?_eq_some_iff]
  constructor
  · rintro ⟨f, b, rfl, hf, rfl⟩
    exact ⟨_, hposition f, isLeast_levelBytes hf hpieces⟩
  · rintro ⟨p, rfl, hleast⟩
    obtain ⟨f', q, b', heq, htext, -⟩ :=
      exists_of_mem_levelBytes hpieces (by decide) (by decide) hleast.1
    obtain rfl := eq_close_of_text htext
    have hmem : .char '}' ∈ g := by simp [heq]
    obtain ⟨f, b, rfl, hf⟩ := List.eq_append_cons_of_mem hmem
    refine ⟨f, b, rfl, hf, ?_⟩
    rw [hposition, (isLeast_levelBytes hf hpieces).unique hleast]

end Pieces

/-- The last byte of a text is a comma at the level. -/
def EndsInSeparator (source : List Char) : Prop :=
  ∃ p, p + 1 = byteLength source ∧ (bytes source)[p]? = some ','.toUInt8 ∧ AtLevel source p

theorem endsInSeparator_iff (source : List Char) :
    EndsInSeparator source ↔ (pieces source).getLast? = some .comma := by
  constructor
  · rintro ⟨n, hn, hbyte, hlevel⟩
    have hwhole : pieces source = [] ++ pieces source ++ [] := by simp
    have hmem : n ∈ levelBytes source ',' (byteLength (texts []))
        (byteLength (texts ([] ++ pieces source))) := by
      refine ⟨Nat.zero_le n, ?_, hbyte, hlevel⟩
      rw [List.nil_append, texts_pieces]
      omega
    obtain ⟨f, p, b, heq, htext, rfl⟩ :=
      exists_of_mem_levelBytes hwhole (by decide) (by decide) hmem
    have hmem : p ∈ pieces source := by simp [heq]
    obtain rfl := eq_comma_of_text hmem htext
    -- The comma is one byte, so that there is none behind it.
    have hback : b = [] := by
      rw [eq_texts_append heq, List.nil_append, texts_cons, Text.byteLength_append,
        Text.byteLength_append, htext] at hn
      have hsize : byteLength [','] = 1 := rfl
      by_contra hne
      have hpos := Text.byteLength_pos (mt texts_eq_nil_iff.1 hne)
      omega
    rw [heq, hback, List.getLast?_concat]
  · intro hlast
    obtain ⟨front, hpieces⟩ := List.getLast?_eq_some_iff.1 hlast
    refine ⟨byteLength (texts front), ?_, ?_, atLevel_of_pieces hpieces (unclosed_notMem hpieces)⟩
    · rw [eq_texts_append hpieces, Text.byteLength_append]
      rfl
    · exact getElem?_bytes_piece (i := 0) hpieces Nat.one_pos

/-! ## §2 Entries behind others -/

/-- The name, the block and the text behind the block stand one after another in a text that starts
    at `base`, behind what is written in front of them. -/
structure Entry.PartsStand (before source : List Char) (base : Nat) (e : Entry) : Prop where
  name : e.name.offset = base + byteLength before
  plain : ∀ c ∈ e.name.text, c ≠ ',' ∧ c ≠ '{'
  openAt : ∀ b ∈ e.block, b.openAt = base + byteLength (before ++ e.name.text)
  content : ∀ b ∈ e.block, b.content.offset = base + byteLength (before ++ e.name.text ++ ['{'])
  /-- The block reaches up to the brace that closes it in the text, if there is one. -/
  closed : ∀ b ∈ e.block, closeAt? source (byteLength (before ++ e.name.text)) =
    if b.closed then some (byteLength (before ++ e.name.text ++ '{' :: b.body)) else none
  trailing : e.trailing.offset = base + byteLength (before ++ e.name.text ++ e.blockText)
  /-- Without a block all of the entry is its name. -/
  noBlock : e.block = none → e.trailing.text = []

/-- An entry stands in a text that starts at `base`, behind what is written in front of it. -/
structure Entry.StandsBehind (before source : List Char) (base : Nat) (e : Entry) : Prop
    extends e.PartsStand before source base where
  text : ∃ behind, source = before ++ e.text ++ behind
  /-- No comma in the entry is at the level. -/
  separators : levelBytes source ',' (byteLength before) (byteLength (before ++ e.text)) = ∅
  strayClose : ∀ n, e.strayClose = some n ↔ ∃ p, n = base + p ∧
    IsLeast (levelBytes source '}' (byteLength before) (byteLength (before ++ e.text))) p

section Pieces

variable {source : List Char} {front : List Piece}

theorem block?_ne_none {p : Piece} (hp : p.isChar = false) (hcomma : p ≠ .comma) {offset : Nat} :
    p.block? offset ≠ none := by
  cases p with
  | comma => exact absurd rfl hcomma
  | char c => cases hp
  | block body | unclosed body => exact Option.some_ne_none _

/-- A block that is a piece is closed where the text closes it. -/
theorem closeAt?_of_block? {back : List Piece} {p : Piece}
    (hpieces : pieces source = front ++ p :: back) {offset : Nat} {b : Block}
    (h : p.block? offset = some b) :
    b.openAt = offset ∧ closeAt? source (byteLength (texts front)) =
      if b.closed then some (byteLength (texts front ++ '{' :: b.body)) else none := by
  cases p with
  | comma => cases h
  | char c => cases h
  | block body =>
    obtain rfl := Option.some.inj h
    refine ⟨rfl, (closeAt?_of_block hpieces).trans ?_⟩
    rw [Text.byteLength_append, Nat.add_assoc]
    rfl
  | unclosed body =>
    obtain rfl := Option.some.inj h
    exact ⟨rfl, closeAt?_of_unclosed hpieces⟩

variable {g rest : List Piece} (hpieces : pieces source = front ++ g ++ rest) (hg : .comma ∉ g)
  (base : Nat)

include hpieces hg

theorem partsStand_ofPieces :
    (Entry.ofPieces (base + byteLength (texts front)) g).PartsStand (texts front) source base := by
  obtain ⟨s, ps, rfl, hps⟩ := exists_eq_map_char_append g
  have hplain : ∀ c ∈ s, c ≠ ',' ∧ c ≠ '{' := by
    intro c hc
    have hmem : .char c ∈ pieces source := by simp [hpieces, hc]
    exact char_of_mem_pieces hmem
  cases ps with
  | nil =>
    -- The entry is a name, and ends where the name does.
    rw [List.append_nil, ofPieces_chars]
    refine ⟨rfl, hplain, nofun, nofun, nofun, ?_, fun _ => rfl⟩
    simp [Entry.blockText, Nat.add_assoc]
  | cons p ps =>
    have hp := hps p rfl
    have hcomma : p ≠ .comma := fun heq => hg (by simp [heq])
    have hblockText := blockText_ofPieces (base + byteLength (texts front)) s hp hcomma ps
    have hwhole : pieces source = front ++ s.map .char ++ p :: (ps ++ rest) := by simp [hpieces]
    have hfront : texts (front ++ s.map .char) = texts front ++ s := by
      rw [texts_append, texts_map_char]
    have hbrace : base + byteLength (texts front) + byteLength s =
        base + byteLength (texts front ++ s) := by
      rw [Text.byteLength_append, Nat.add_assoc]
    rw [ofPieces_chars_cons _ s hp, hbrace] at hblockText ⊢
    have hblock (b : Block) (hb : p.block? (base + byteLength (texts front ++ s)) = some b) :=
      hfront ▸ closeAt?_of_block? hwhole hb
    refine ⟨rfl, hplain, fun b hb => (hblock b hb).1, fun b hb => ?_,
      fun b hb => (hblock b hb).2, ?_, fun hnone => absurd hnone (block?_ne_none hp hcomma)⟩
    · rw [Text.byteLength_append, ← Nat.add_assoc, ← (hblock b hb).1]
      rfl
    · rw [hblockText, Text.byteLength_append (texts front ++ s), ← Nat.add_assoc]

/-- An entry of pieces stands behind the pieces in front of it. -/
theorem standsBehind_ofPieces :
    (Entry.ofPieces (base + byteLength (texts front)) g).StandsBehind (texts front) source
      base := by
  have htext : texts front ++ (Entry.ofPieces (base + byteLength (texts front)) g).text =
      texts (front ++ g) := by
    rw [text_ofPieces _ hg, texts_append]
  refine ⟨partsStand_ofPieces hpieces hg base, ?_, ?_, fun n => ?_⟩
  · rw [htext]
    exact ⟨texts rest, eq_texts_append hpieces⟩
  · rw [htext]
    exact levelBytes_comma_eq_empty hpieces hg
  · rw [htext, ofPieces_strayClose]
    exact strayClose?_eq_some_iff_isLeast hpieces base n

end Pieces

/-! ## §3 Covered levels -/

/-- The entries that are found by positions: those from the first byte on, one after another, in at
    most a step more than the level has bytes. -/
def Span.scan (level : Span) : Checked Empty (List Entry) :=
  visit level (fun e behind => (e :: ·) <$> behind) (pure []) (byteLength level.text + 1) 0

theorem scan_eq (level : Span) : level.scan = pure level.entries := by
  rw [Span.scan, visit_entries]
  induction level.entries with
  | nil => rfl
  | cons e es ih => rw [List.foldr_cons, ih, map_pure]

theorem text_eq_join_entries (level : Span) :
    level.text = Text.join [','] (level.entries.map Entry.text) ++
      if (pieces level.text).getLast? = some .comma then [','] else [] := by
  rw [Span.entries, map_text_ofGroups fun g hg => comma_notMem_of_mem_groups hg, ← texts_eq_join,
    texts_pieces]

/-- The piece of a block that is not closed is one of the entry's. -/
theorem exists_unclosed_mem {offset : Nat} {g : List Piece} {b : Block}
    (hb : (Entry.ofPieces offset g).block = some b) (hclosed : b.closed = false) :
    ∃ body, .unclosed body ∈ g := by
  obtain ⟨s, ps, rfl, hps⟩ := exists_eq_map_char_append g
  cases ps with
  | nil =>
    rw [List.append_nil, ofPieces_chars] at hb
    cases hb
  | cons p ps =>
    rw [ofPieces_chars_cons offset s (hps p rfl)] at hb
    cases p with
    | comma => cases hb
    | char c => cases hb
    | block body =>
      obtain rfl := Option.some.inj hb
      cases hclosed
    | unclosed body => exact ⟨body, by simp⟩

/-- The entries of a level cover it. They are found by positions; with commas between them they make
    up the text of the level, but for a separator at its end; each of them stands behind the ones in
    front of it, each with a comma; and only the last one can have a block that is not closed. -/
theorem entries_cover (level : Span) :
    level.scan = pure level.entries ∧
      (EndsInSeparator level.text →
        level.text = Text.join [','] (level.entries.map Entry.text) ++ [',']) ∧
      (¬EndsInSeparator level.text →
        level.text = Text.join [','] (level.entries.map Entry.text)) ∧
      ∀ es e es', level.entries = es ++ e :: es' →
        e.StandsBehind (written es) level.text level.offset ∧
          ∀ b ∈ e.block, b.closed = false → es' = [] := by
  have hjoin := text_eq_join_entries level
  rw [endsInSeparator_iff]
  refine ⟨scan_eq level, fun hend => ?_, fun hend => ?_, fun es e es' hentries => ?_⟩
  · rwa [if_pos hend] at hjoin
  · rwa [if_neg hend, List.append_nil] at hjoin
  · obtain ⟨front, g, rest, hpieces, -, hg, -, hfront, rfl, hlast⟩ :=
      exists_of_ofGroups_eq hentries
    constructor
    · rw [← hfront]
      exact standsBehind_ofPieces hpieces hg level.offset
    · -- Nothing is behind an open block, so that its entry has no separator behind it.
      intro b hb hclosed
      obtain ⟨body, hmem⟩ := exists_unclosed_mem hb hclosed
      obtain ⟨first, back, rfl⟩ := List.append_of_mem hmem
      have hwhole : pieces level.text = front ++ first ++ .unclosed body :: (back ++ rest) := by
        simp [hpieces]
      exact hlast (List.append_eq_nil_iff.1 (eq_nil_of_unclosed hwhole)).2

/-- A level with closing braces too many, two blocks in one entry, an entry without a text, and a
    last block that stays open in front of a comma. -/
def openLevel : Span :=
  ⟨"a\x7d, b\x7bc,\x7bd\x7d\x7d e\x7d f\x7bg\x7d,,h\x7bi,".toList, 10⟩

/-- The second entry of the level. -/
def openLevelEntry : Entry :=
  ⟨⟨" b".toList, 13⟩, some ⟨15, "c,\x7bd\x7d".toList, true⟩, ⟨" e\x7d f\x7bg\x7d".toList, 22⟩,
    some 24⟩

theorem entries_cover_openLevel :
    openLevel.entries = [⟨⟨"a\x7d".toList, 10⟩, none, ⟨[], 12⟩, some 11⟩, openLevelEntry,
        ⟨⟨[], 31⟩, none, ⟨[], 31⟩, none⟩,
        ⟨⟨['h'], 32⟩, some ⟨33, "i,".toList, false⟩, ⟨[], 36⟩, none⟩] ∧
      ¬EndsInSeparator openLevel.text ∧
      openLevel.text = Text.join [','] (openLevel.entries.map Entry.text) ∧
      openLevelEntry.StandsBehind "a\x7d,".toList openLevel.text 10 ∧
      IsLeast (levelBytes openLevel.text '}' 3 20) 14 := by
  have hentries : openLevel.entries = [⟨⟨"a\x7d".toList, 10⟩, none, ⟨[], 12⟩, some 11⟩,
      openLevelEntry, ⟨⟨[], 31⟩, none, ⟨[], 31⟩, none⟩,
      ⟨⟨['h'], 32⟩, some ⟨33, "i,".toList, false⟩, ⟨[], 36⟩, none⟩] := by
    decide +kernel
  have hend : ¬EndsInSeparator openLevel.text := by
    rw [endsInSeparator_iff]
    decide +kernel
  obtain ⟨-, -, hjoin, hcover⟩ := entries_cover openLevel
  have hstands : openLevelEntry.StandsBehind "a\x7d,".toList openLevel.text 10 :=
    (hcover [_] openLevelEntry _ hentries).1
  obtain ⟨p, hp, hleast⟩ := (hstands.strayClose 24).1 rfl
  obtain rfl : p = 14 := by omega
  exact ⟨hentries, hend, hjoin hend, hstands, hleast⟩

end ListQuery.Relation
