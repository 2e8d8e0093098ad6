import ListQuery.Proofs.Relation.Accept
import ListQuery.Text.Split

/-!
# Entries written back

An entry is written back as its name, its block with the braces that it has, and the text behind the
block. An entry that pieces make up is written as the pieces are, so the entries of a level with
commas between them make up the text of the level, but for a comma at its end.

An entry of a level divides the pieces of the level: those in front of it are what the entries in
front of it are written as, each with a comma behind it.

## Main definitions

- `Entry.text`: an entry written back;
- `written`: entries written back, each with a comma behind it.

## Main statements

- `text_ofPieces`: the entry of pieces is written as the pieces are;
- `texts_eq_join`: pieces are their groups with commas between them;
- `exists_of_ofGroups_eq`: where the pieces of an entry stand.
-/

namespace ListQuery.Relation

open Text (byteLength)

/-! ## §1 One entry -/

/-- The text of a block with its braces. -/
def Block.text (b : Block) : List Char :=
  '{' :: (b.body ++ if b.closed then ['}'] else [])

def Entry.blockText (e : Entry) : List Char :=
  match e.block with
  | none => []
  | some b => b.text

def Entry.text (e : Entry) : List Char :=
  e.name.text ++ (e.blockText ++ e.trailing.text)

theorem blockText_ofPieces (offset : Nat) (s : List Char) {p : Piece} (hp : p.isChar = false)
    (hcomma : p ≠ .comma) (ps : List Piece) :
    (Entry.ofPieces offset (s.map .char ++ p :: ps)).blockText = p.text := by
  rw [ofPieces_chars_cons offset s hp]
  cases p with
  | comma => exact absurd rfl hcomma
  | char c => cases hp
  | block body => simp [Entry.blockText, Piece.block?, Block.text, Piece.text]
  | unclosed body => simp [Entry.blockText, Piece.block?, Block.text, Piece.text]

/-- The entry of pieces is written as the pieces are. -/
theorem text_ofPieces (offset : Nat) {g : List Piece} (hg : .comma ∉ g) :
    (Entry.ofPieces offset g).text = texts g := by
  obtain ⟨s, ps, rfl, hps⟩ := exists_eq_map_char_append g
  cases ps with
  | nil =>
    rw [List.append_nil, texts_map_char, ofPieces_chars]
    exact List.append_nil s
  | cons p ps =>
    have hp := hps p rfl
    have hcomma : p ≠ .comma := fun heq => hg (by simp [heq])
    rw [Entry.text, blockText_ofPieces offset s hp hcomma, ofPieces_chars_cons offset s hp,
      texts_append, texts_map_char, texts_cons]

theorem map_text_ofGroups {gs : List (List Piece)} (hgs : ∀ g ∈ gs, .comma ∉ g) (offset : Nat) :
    (Entry.ofGroups offset gs).map Entry.text = gs.map texts := by
  induction gs generalizing offset with
  | nil => rfl
  | cons g gs ih =>
    rw [Entry.ofGroups, List.map_cons, List.map_cons,
      text_ofPieces offset (hgs g List.mem_cons_self),
      ih fun g' hg' => hgs g' (List.mem_cons_of_mem _ hg')]

/-! ## §2 Commas between entries -/

theorem groups_eq_nil_iff {ps : List Piece} : groups ps = [] ↔ ps = [] := by
  cases ps with
  | nil => exact iff_of_true rfl rfl
  | cons p ps =>
    refine iff_of_false (fun h => ?_) (List.cons_ne_nil p ps)
    unfold groups at h
    split at h
    · rename_i heq
      cases heq
    · cases h
    · split at h <;> cases h

/-- A text in front of the first part of a list of parts. -/
theorem append_join_cons (s t : List Char) (parts : List (List Char)) :
    Text.join [','] ((s ++ t) :: parts) = s ++ Text.join [','] (t :: parts) := by
  cases parts with
  | nil => rfl
  | cons next parts => simp [Text.join]

/-- Pieces are their groups with commas between them, but for a comma at the end. -/
theorem texts_eq_join (ps : List Piece) :
    texts ps = Text.join [','] ((groups ps).map texts) ++
      if ps.getLast? = some .comma then [','] else [] := by
  fun_induction groups ps with
  | case1 => rfl
  | case2 ps ih =>
    cases ps with
    | nil => rfl
    | cons p ps =>
      -- The comma stands between the empty group and the first one behind it.
      have hne : groups (p :: ps) ≠ [] := mt groups_eq_nil_iff.1 (List.cons_ne_nil p ps)
      obtain ⟨g, gs, hgroups⟩ := List.exists_cons_of_ne_nil hne
      rw [texts_cons, ih, hgroups, List.getLast?_cons_cons]
      simp [Text.join, Piece.text]
  | case3 p ps hp hnil ih =>
    obtain rfl := groups_eq_nil_iff.1 hnil
    have hlast : ¬[p].getLast? = some .comma := fun h => hp (Option.some.inj h)
    rw [if_neg hlast, List.append_nil]
    rfl
  | case4 p ps hp g gs hgroups ih =>
    have hne : ps ≠ [] := by
      rintro rfl
      cases hgroups
    obtain ⟨q, qs, rfl⟩ := List.exists_cons_of_ne_nil hne
    rw [texts_cons, ih, hgroups, List.getLast?_cons_cons, ← List.append_assoc, List.map_cons,
      List.map_cons, texts_cons, append_join_cons]

/-- Entries written one after another, each with a comma behind it. -/
def written (es : List Entry) : List Char :=
  es.flatMap fun e => e.text ++ [',']

/-- An entry is made of pieces that stand behind those of the entries in front of it, and in front
    of a comma, or of the last pieces. -/
theorem exists_of_ofGroups_eq {ps : List Piece} {offset : Nat} {es es' : List Entry} {e : Entry}
    (h : Entry.ofGroups offset (groups ps) = es ++ e :: es') :
    ∃ front g rest, ps = front ++ g ++ rest ∧ g ++ rest ≠ [] ∧ .comma ∉ g ∧
      (∀ p ∈ rest.head?, p = .comma) ∧ texts front = written es ∧
      e = Entry.ofPieces (offset + byteLength (texts front)) g ∧ (rest = [] → es' = []) := by
  induction es generalizing ps offset with
  | nil =>
    by_cases hcomma : .comma ∈ ps
    · -- The first comma ends the first entry.
      obtain ⟨g, rest, rfl, hg⟩ := List.eq_append_cons_of_mem hcomma
      rw [groups_append_comma hg, Entry.ofGroups] at h
      obtain ⟨rfl, -⟩ := List.cons.inj h
      exact ⟨[], g, .comma :: rest, rfl, by simp, hg, by simp, rfl, rfl,
        fun hnil => absurd hnil (List.cons_ne_nil _ _)⟩
    · have hne : ps ≠ [] := by
        rintro rfl
        cases h
      rw [groups_of_no_comma hcomma hne] at h
      obtain ⟨rfl, rfl⟩ := List.cons.inj h
      exact ⟨[], ps, [], by simp, by simpa using hne, hcomma, by simp, rfl, rfl, fun _ => rfl⟩
  | cons e' es ih =>
    -- There is a comma behind the first entry, and the entry is one of those behind it.
    have hcomma : .comma ∈ ps := by
      by_contra hcomma
      have hne : ps ≠ [] := by
        rintro rfl
        cases h
      rw [groups_of_no_comma hcomma hne] at h
      exact absurd (List.cons.inj h).2 (by simp [Entry.ofGroups])
    obtain ⟨g, rest, rfl, hg⟩ := List.eq_append_cons_of_mem hcomma
    rw [groups_append_comma hg, Entry.ofGroups] at h
    obtain ⟨rfl, hrest⟩ := List.cons.inj h
    obtain ⟨front, g', rest', rfl, hne, hg', hhead, hfront, rfl, hlast⟩ := ih hrest
    have htexts : texts (g ++ .comma :: front) = texts g ++ ([','] ++ texts front) := by
      rw [texts_append, texts_cons]
      rfl
    refine ⟨g ++ .comma :: front, g', rest', by simp, hne, hg', hhead, ?_, ?_, hlast⟩
    · rw [htexts, written, List.flatMap_cons, text_ofPieces offset hg, List.append_assoc, hfront]
      rfl
    · rw [htexts, Text.byteLength_append, Text.byteLength_append]
      exact congrArg (Entry.ofPieces · g') (by simp only [Nat.add_assoc]; rfl)

end ListQuery.Relation
