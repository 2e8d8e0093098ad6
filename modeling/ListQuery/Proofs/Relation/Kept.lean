import ListQuery.Proofs.Relation.Grammar
import ListQuery.Proofs.Relation.Outermost
import ListQuery.Request.Wire
import Mathlib.Data.List.Basic

/-!
# What a lenient reading keeps of a text

A lenient reading keeps the name and the text of the block of every entry that has a name. Nothing
else of an entry comes into its result: not where it stands, nor whether its block is closed, nor
what stands behind the block. So the relations in a text are told from its pieces alone.

To compare the relations in two texts, their pieces are gone through one after another, while those
of the entry so far are kept at hand (`keptFrom`). Blanks around a text make no difference, although
behind an open brace they become a part of the block.

## Main definitions

- `keptIn`: what is kept of the entries of a text;
- `forestIn`: the relations in a text, for a way to split blocks.

## Main statements

- `kept?_ofPieces`: what is kept of an entry does not depend on where it stands;
- `keptIn_eq_keptFrom`: what is kept of a text, piece by piece;
- `keptIn_append_comma`: what is kept of two texts with a comma between them;
- `forestIn_trim`: blanks around a text.
-/

namespace ListQuery.Relation

open Text (byteLength Blanks Padded)

/-! ## §1 Entries without their positions -/

/-- What a lenient reading keeps of an entry. -/
structure Kept where
  name : String
  /-- The text of the block. -/
  body : Option (List Char)
  deriving DecidableEq

/-- What is kept of an entry; nothing if it has no name. -/
def Entry.kept? (e : Entry) : Option Kept :=
  if e.relationName = [] then none
  else some ⟨String.ofList e.relationName, e.block.map Block.body⟩

/-- What is kept of the entry that pieces make up. -/
def keptOf (g : List Piece) : Option Kept :=
  (Entry.ofPieces 0 g).kept?

/-- What is kept of the entries of a text. -/
def keptIn (text : List Char) : List Kept :=
  (groups (pieces text)).filterMap keptOf

/-- The name that characters make up. -/
def nameOf (s : List Char) : List Char :=
  Text.trim (s.filter (· ≠ '}'))

/-- The text of the block that a piece is. -/
def Piece.body? : Piece → Option (List Char)
  | .block body | .unclosed body => some body
  | .comma | .char _ => none

/-- What is kept of an entry with these characters in front of its block. -/
def keptAs (s : List Char) (body : Option (List Char)) : Option Kept :=
  if nameOf s = [] then none else some ⟨String.ofList (nameOf s), body⟩

theorem kept?_chars (offset : Nat) (s : List Char) :
    (Entry.ofPieces offset (s.map .char)).kept? = keptAs s none := by
  rw [ofPieces_chars]
  rfl

theorem kept?_chars_cons (offset : Nat) (s : List Char) {p : Piece} (hp : p.isChar = false)
    (ps : List Piece) :
    (Entry.ofPieces offset (s.map .char ++ p :: ps)).kept? = keptAs s p.body? := by
  have hbody (openAt : Nat) : (p.block? openAt).map Block.body = p.body? := by
    cases p <;> rfl
  rw [ofPieces_chars_cons offset s hp, ← hbody (offset + byteLength s)]
  rfl

theorem keptOf_chars (s : List Char) : keptOf (s.map .char) = keptAs s none :=
  kept?_chars 0 s

theorem keptOf_chars_cons (s : List Char) {p : Piece} (hp : p.isChar = false) (ps : List Piece) :
    keptOf (s.map .char ++ p :: ps) = keptAs s p.body? :=
  kept?_chars_cons 0 s hp ps

/-- What is kept of an entry does not depend on where it stands. -/
theorem kept?_ofPieces (offset : Nat) (g : List Piece) :
    (Entry.ofPieces offset g).kept? = keptOf g := by
  obtain ⟨s, rest, rfl, hrest⟩ := exists_eq_map_char_append g
  cases rest with
  | nil => rw [List.append_nil, kept?_chars, keptOf_chars]
  | cons p ps => rw [kept?_chars_cons offset s (hrest p rfl), keptOf_chars_cons s (hrest p rfl)]

theorem filterMap_kept?_entries (level : Span) :
    level.entries.filterMap Entry.kept? = keptIn level.text := by
  unfold Span.entries keptIn
  generalize groups (pieces level.text) = gs
  generalize level.offset = offset
  induction gs generalizing offset with
  | nil => rfl
  | cons g gs ih =>
    rw [Entry.ofGroups, List.filterMap_cons, List.filterMap_cons, kept?_ofPieces, ih]

/-! ## §2 Piece by piece -/

/-- What is kept of pieces, the first of which go on with the entry that `g` begins. -/
def keptFrom (g : List Piece) : List Piece → List Kept
  | [] => (keptOf g).toList
  | .comma :: ps => (keptOf g).toList ++ keptFrom [] ps
  | p :: ps => keptFrom (g ++ [p]) ps

theorem keptFrom_cons {p : Piece} (hp : p ≠ .comma) (g ps : List Piece) :
    keptFrom g (p :: ps) = keptFrom (g ++ [p]) ps := by
  rw [keptFrom]
  exact hp

theorem keptFrom_char (g : List Piece) (c : Char) (ps : List Piece) :
    keptFrom g (.char c :: ps) = keptFrom (g ++ [.char c]) ps :=
  rfl

theorem keptFrom_block (g : List Piece) (body : List Char) (ps : List Piece) :
    keptFrom g (.block body :: ps) = keptFrom (g ++ [.block body]) ps :=
  rfl

theorem keptFrom_unclosed (g : List Piece) (body : List Char) (ps : List Piece) :
    keptFrom g (.unclosed body :: ps) = keptFrom (g ++ [.unclosed body]) ps :=
  rfl

theorem keptOf_nil : keptOf [] = none :=
  rfl

theorem keptFrom_eq (g ps : List Piece) :
    keptFrom g ps = match groups ps with
      | [] => (keptOf g).toList
      | h :: hs => (keptOf (g ++ h)).toList ++ hs.filterMap keptOf := by
  fun_induction keptFrom g ps with
  | case1 g => rfl
  | case2 g ps ih =>
    -- Without another piece no group begins behind the comma, but it would keep nothing.
    rw [ih, groups]
    cases groups ps with
    | nil => simp [keptOf_nil]
    | cons h hs => simp [List.filterMap_eq_flatMap_toList]
  | case3 g p ps hp ih =>
    rw [ih, groups]
    · cases groups ps <;> simp
    · exact hp

/-- What is kept of a text, piece by piece. -/
theorem keptIn_eq_keptFrom (text : List Char) : keptIn text = keptFrom [] (pieces text) := by
  rw [keptFrom_eq, keptIn]
  cases groups (pieces text) with
  | nil => rfl
  | cons h hs => simp [List.filterMap_eq_flatMap_toList]

theorem keptFrom_append_comma (g ps qs : List Piece) :
    keptFrom g (ps ++ .comma :: qs) = keptFrom g ps ++ keptFrom [] qs := by
  fun_induction keptFrom g ps with
  | case1 g => rfl
  | case2 g ps ih => rw [List.cons_append, keptFrom, ih, List.append_assoc]
  | case3 g p ps hp ih => rw [List.cons_append, keptFrom_cons hp, ih]

/-- A comma ends what is kept of the text in front of it, if no brace stays open there. -/
theorem keptIn_append_comma {s : List Char} (h : ∀ body, Piece.unclosed body ∉ pieces s)
    (t : List Char) : keptIn (s ++ ',' :: t) = keptIn s ++ keptIn t := by
  rw [keptIn_eq_keptFrom, keptIn_eq_keptFrom, keptIn_eq_keptFrom, pieces_append h, pieces_comma,
    keptFrom_append_comma]

/-- The text of a block that is kept is one of the pieces. -/
theorem exists_piece_of_mem_keptIn {text : List Char} {k : Kept} (hk : k ∈ keptIn text)
    {body : List Char} (hbody : k.body = some body) :
    ∃ p ∈ pieces text, p.body? = some body := by
  obtain ⟨g, hg, hkept⟩ := List.mem_filterMap.1 hk
  obtain ⟨s, rest, rfl, hrest⟩ := exists_eq_map_char_append g
  have hname (body' : Option (List Char)) (h : keptAs s body' = some k) : k.body = body' := by
    unfold keptAs at h
    split at h
    · cases h
    · rw [← Option.some.inj h]
  cases rest with
  | nil =>
    rw [List.append_nil, keptOf_chars] at hkept
    exact absurd ((hname _ hkept).symm.trans hbody) nofun
  | cons p ps =>
    rw [keptOf_chars_cons s (hrest p rfl)] at hkept
    refine ⟨p, mem_of_mem_groups hg ?_, (hname _ hkept).symm.trans hbody⟩
    exact List.mem_append_right _ List.mem_cons_self

/-- The text of a block is a part of the text around it. -/
theorem subset_of_mem_keptIn {text : List Char} {k : Kept} (hk : k ∈ keptIn text)
    {body : List Char} (hbody : k.body = some body) : body ⊆ text := by
  obtain ⟨p, hp, hpiece⟩ := exists_piece_of_mem_keptIn hk hbody
  intro c hc
  rw [← texts_pieces text]
  refine List.mem_flatMap.2 ⟨p, hp, ?_⟩
  cases p with
  | comma | char => cases hpiece
  | block b =>
    obtain rfl := Option.some.inj hpiece
    simp [Piece.text, hc]
  | unclosed b =>
    obtain rfl := Option.some.inj hpiece
    exact List.mem_cons_of_mem _ hc

/-! ## §3 Relations in a text -/

/-- The relation of an entry whose block is left out. -/
def Kept.bare (k : Kept) : Relation :=
  { name := k.name }

/-- The relation of an entry. Its block is split into the request and the level of the relations
    behind it. -/
def Kept.relation (split : List Char → Option Request × List Char)
    (inner : List Char → List Relation) (k : Kept) : Relation :=
  match k.body with
  | none => { name := k.name }
  | some body => { name := k.name, query := (split body).1, children := inner (split body).2 }

/-- The relations in a text of which so many levels are entered. -/
def forestIn (split : List Char → Option Request × List Char) :
    (levels : Nat) → List Char → List Relation
  | 0, text => (keptIn text).map Kept.bare
  | levels + 1, text => (keptIn text).map (Kept.relation split (forestIn split levels))

/-- The level behind a request: a comma in front of it is no part of it. -/
def behindRequest (rest : List Char) : List Char :=
  match Text.trimStart rest with
  | [] => []
  | c :: s => if c = ',' then s else c :: s

/-- A block, split where the reading of relations splits it. An object at its front is the request
    if it is one, and an object that is not closed takes the rest of the block along. -/
def splitRequest (body : List Char) : Option Request × List Char :=
  match Text.trimStart body with
  | '{' :: s =>
    match cutBlock s with
    | none => (none, [])
    | some (object, rest) =>
      ((Request.ofChars ('{' :: object ++ ['}'])).toOption, behindRequest rest)
  | _ => (none, body)

theorem splitRequest_of_not_open {body : List Char}
    (h : ∀ c ∈ (Text.trimStart body).head?, c ≠ '{') : splitRequest body = (none, body) := by
  unfold splitRequest
  split
  · rename_i s heq
    exact absurd rfl (h '{' (by rw [heq]; rfl))
  · rfl

theorem splitRequest_of_open {body s : List Char} (h : Text.trimStart body = '{' :: s) :
    splitRequest body =
      match cutBlock s with
      | none => (none, [])
      | some (object, rest) =>
        ((Request.ofChars ('{' :: object ++ ['}'])).toOption, behindRequest rest) := by
  unfold splitRequest
  rw [h]
  rfl

/-- A block that is all one level, as the reading of paths takes it. -/
def splitNothing (body : List Char) : Option Request × List Char :=
  (none, body)

theorem keptIn_nil : keptIn [] = [] := by
  unfold keptIn
  rw [pieces_nil]
  rfl

theorem forestIn_nil (split : List Char → Option Request × List Char) (levels : Nat) :
    forestIn split levels [] = [] := by
  cases levels <;> rw [forestIn, keptIn_nil] <;> rfl

/-! ## §4 Blanks around a text -/

theorem filter_of_blanks {u : List Char} (hu : Blanks u) : u.filter (· ≠ '}') = u := by
  rw [List.filter_eq_self]
  intro c hc
  exact decide_eq_true (isPlain_of_isBlank (hu c hc)).1.2.2

theorem nameOf_blanks_append {u : List Char} (hu : Blanks u) (s : List Char) :
    nameOf (u ++ s) = nameOf s := by
  unfold nameOf
  rw [List.filter_append, filter_of_blanks hu, Text.trim_blanks_append hu]

theorem nameOf_append_blanks {v : List Char} (hv : Blanks v) (s : List Char) :
    nameOf (s ++ v) = nameOf s := by
  unfold nameOf
  rw [List.filter_append, filter_of_blanks hv, Text.trim_append_of_blanks hv]

theorem keptOf_blanks_append {u : List Char} (hu : Blanks u) (g : List Piece) :
    keptOf (u.map .char ++ g) = keptOf g := by
  obtain ⟨s, rest, rfl, hrest⟩ := exists_eq_map_char_append g
  rw [← List.append_assoc, ← List.map_append]
  cases rest with
  | nil =>
    rw [List.append_nil, List.append_nil, keptOf_chars, keptOf_chars, keptAs, keptAs,
      nameOf_blanks_append hu]
  | cons p ps =>
    rw [keptOf_chars_cons _ (hrest p rfl), keptOf_chars_cons _ (hrest p rfl), keptAs, keptAs,
      nameOf_blanks_append hu]

theorem keptOf_append_blanks {v : List Char} (hv : Blanks v) (g : List Piece) :
    keptOf (g ++ v.map .char) = keptOf g := by
  obtain ⟨s, rest, rfl, hrest⟩ := exists_eq_map_char_append g
  cases rest with
  | nil =>
    rw [List.append_nil, ← List.map_append, keptOf_chars, keptOf_chars, keptAs, keptAs,
      nameOf_append_blanks hv]
  | cons p ps =>
    -- What stands behind the block is not kept.
    rw [List.append_assoc, List.cons_append, keptOf_chars_cons _ (hrest p rfl),
      keptOf_chars_cons _ (hrest p rfl)]

theorem keptFrom_map_char_append (g : List Piece) (s : List Char) (ps : List Piece) :
    keptFrom g (s.map .char ++ ps) = keptFrom (g ++ s.map .char) ps := by
  induction s generalizing g with
  | nil => simp
  | cons c s ih =>
    rw [List.map_cons, List.cons_append, keptFrom_char, ih]
    simp

theorem keptFrom_blanks_append {u : List Char} (hu : Blanks u) (g ps : List Piece) :
    keptFrom (u.map .char ++ g) ps = keptFrom g ps := by
  fun_induction keptFrom g ps with
  | case1 g => rw [keptFrom, keptOf_blanks_append hu]
  | case2 g ps _ => rw [keptFrom, keptOf_blanks_append hu]
  | case3 g p ps hp ih => rw [keptFrom_cons hp, List.append_assoc, ih]

/-- Blanks in front of a text are not kept. -/
theorem keptIn_blanks_append {u : List Char} (hu : Blanks u) (text : List Char) :
    keptIn (u ++ text) = keptIn text := by
  have hfront := keptFrom_blanks_append hu [] (pieces text)
  rw [List.append_nil] at hfront
  rw [keptIn_eq_keptFrom, keptIn_eq_keptFrom, pieces_blanks_append hu, keptFrom_map_char_append,
    List.nil_append, hfront]

/-- A block stays open if no closing brace comes behind it. -/
theorem closing_append_eq_none {v : List Char} (hv : '}' ∉ v) {depth : Nat} {q : Quoting}
    {s : List Char} (h : closing depth q s = none) : closing depth q (s ++ v) = none := by
  induction s generalizing depth q with
  | nil =>
    rw [List.nil_append, Option.eq_none_iff_forall_ne_some]
    rintro ⟨body, rest⟩ hcut
    exact hv (by simp [closing_eq_append hcut])
  | cons c s ih =>
    -- No character of the text ends the search.
    have step {d : Nat} {q' : Quoting}
        (h : (closing d q' s).map (fun cut => (c :: cut.1, cut.2)) = none) :
        (closing d q' (s ++ v)).map (fun cut => (c :: cut.1, cut.2)) = none :=
      Option.map_eq_none_iff.2 (ih (Option.map_eq_none_iff.1 h))
    cases q with
    | outside =>
      simp only [closing, List.cons_append] at h ⊢
      split at h
      · rename_i hc
        rw [if_pos hc]
        cases depth with
        | zero => cases h
        | succ depth => exact step h
      · rename_i hc
        rw [if_neg hc]
        exact step h
    | inside => exact step h
    | escaped => exact step h

/-- What is made of what is kept of a text stays the same with blanks behind it, if blanks behind
    the text of a block make no difference. -/
theorem map_keptIn_append_blanks {α : Type} {v : List Char} (hv : Blanks v) {f : Kept → α}
    (hf : ∀ name body, f ⟨name, some (body ++ v)⟩ = f ⟨name, some body⟩) (text : List Char) :
    (keptIn (text ++ v)).map f = (keptIn text).map f := by
  have hfrom (g : List Piece) :
      (keptFrom g (pieces (text ++ v))).map f = (keptFrom g (pieces text)).map f := by
    fun_induction pieces text generalizing g with
    | case1 =>
      have hend := keptFrom_map_char_append g v []
      rw [List.append_nil] at hend
      rw [List.nil_append, pieces_of_blanks hv, hend, keptFrom, keptFrom, keptOf_append_blanks hv]
    | case2 s ih =>
      rw [List.cons_append, pieces_comma, keptFrom, keptFrom, List.map_append, List.map_append, ih]
    | case3 s body rest hcut _ ih =>
      -- The blanks stand behind the block.
      have hcut' : cutBlock (s ++ v) = some (body, rest ++ v) := closing_append v hcut
      rw [List.cons_append, pieces_of_cutBlock hcut', keptFrom_block, keptFrom_block, ih]
    | case4 s hcut _ =>
      -- The blanks become a part of the block that is not closed.
      have hclose : '}' ∉ v := fun hmem => (isPlain_of_isBlank (hv _ hmem)).1.2.2 rfl
      rw [List.cons_append, pieces_of_cutBlock_eq_none (closing_append_eq_none hclose hcut),
        keptFrom_unclosed, keptFrom_unclosed, keptFrom, keptFrom]
      obtain ⟨t, rest, rfl, hrest⟩ := exists_eq_map_char_append g
      cases rest with
      | nil =>
        rw [List.append_nil, keptOf_chars_cons t rfl, keptOf_chars_cons t rfl, keptAs, keptAs]
        split
        · rfl
        · exact congrArg (· :: []) (hf _ s)
      | cons p ps =>
        rw [List.append_assoc, List.append_assoc, List.cons_append, List.cons_append,
          keptOf_chars_cons t (hrest p rfl), keptOf_chars_cons t (hrest p rfl)]
    | case5 c s hcomma hopen ih =>
      rw [List.cons_append, pieces_char hcomma hopen, keptFrom_char, keptFrom_char, ih]
  rw [keptIn_eq_keptFrom, keptIn_eq_keptFrom, hfrom]

/-- A way to split blocks at which blanks behind a block make no other difference than blanks
    behind the level. -/
def KeepsBlanks (split : List Char → Option Request × List Char) : Prop :=
  ∀ body v, Blanks v →
    (split (body ++ v)).1 = (split body).1 ∧
      ∃ w, Blanks w ∧ (split (body ++ v)).2 = (split body).2 ++ w

theorem keepsBlanks_splitNothing : KeepsBlanks splitNothing :=
  fun _ v hv => ⟨rfl, v, hv, rfl⟩

theorem behindRequest_append_blanks {v : List Char} (hv : Blanks v) (rest : List Char) :
    ∃ w, Blanks w ∧ behindRequest (rest ++ v) = behindRequest rest ++ w := by
  unfold behindRequest
  cases hrest : Text.trimStart rest with
  | nil =>
    have hblanks : Text.trimStart (rest ++ v) = [] := by
      rw [Text.trimStart_append_of_blanks (Text.trimStart_eq_nil_iff.1 hrest)]
      exact Text.trimStart_eq_nil_iff.2 hv
    rw [hblanks]
    exact ⟨[], Text.blanks_nil, rfl⟩
  | cons c s =>
    have hne : Text.trimStart rest ≠ [] := by rw [hrest]; exact List.cons_ne_nil c s
    rw [Text.trimStart_append hne, hrest]
    refine ⟨v, hv, ?_⟩
    dsimp only [List.cons_append]
    split <;> rfl

/-- Blanks behind a block do not come into its request. They stand behind the level of the relations,
    or behind an object that is not closed, which takes them along. -/
theorem keepsBlanks_splitRequest : KeepsBlanks splitRequest := by
  intro body v hv
  by_cases hopen : ∀ c ∈ (Text.trimStart body).head?, c ≠ '{'
  · have hopen' : ∀ c ∈ (Text.trimStart (body ++ v)).head?, c ≠ '{' := by
      by_cases hbody : Text.trimStart body = []
      · rw [Text.trimStart_append_of_blanks (Text.trimStart_eq_nil_iff.1 hbody),
          Text.trimStart_eq_nil_iff.2 hv]
        exact nofun
      · rw [Text.trimStart_append hbody, List.head?_append_of_ne_nil _ hbody]
        exact hopen
    rw [splitRequest_of_not_open hopen, splitRequest_of_not_open hopen']
    exact ⟨rfl, v, hv, rfl⟩
  · obtain ⟨s, hs⟩ : ∃ s, Text.trimStart body = '{' :: s := by
      push Not at hopen
      obtain ⟨c, hc, rfl⟩ := hopen
      exact List.head?_eq_some_iff.1 hc
    have hne : Text.trimStart body ≠ [] := by rw [hs]; exact List.cons_ne_nil _ s
    have hs' : Text.trimStart (body ++ v) = '{' :: (s ++ v) := by
      rw [Text.trimStart_append hne, hs, List.cons_append]
    rw [splitRequest_of_open hs, splitRequest_of_open hs']
    cases hcut : cutBlock s with
    | none =>
      have hclose : '}' ∉ v := fun hmem => (isPlain_of_isBlank (hv _ hmem)).1.2.2 rfl
      have hcut' : cutBlock (s ++ v) = none := closing_append_eq_none hclose hcut
      rw [hcut']
      exact ⟨rfl, [], Text.blanks_nil, rfl⟩
    | some cut =>
      have hcut' : cutBlock (s ++ v) = some (cut.1, cut.2 ++ v) := closing_append v hcut
      rw [hcut']
      exact ⟨rfl, behindRequest_append_blanks hv cut.2⟩

theorem forestIn_blanks_append {split : List Char → Option Request × List Char} (levels : Nat)
    {u : List Char} (hu : Blanks u) (text : List Char) :
    forestIn split levels (u ++ text) = forestIn split levels text := by
  cases levels <;> rw [forestIn, forestIn, keptIn_blanks_append hu]

theorem forestIn_append_blanks {split : List Char → Option Request × List Char}
    (hsplit : KeepsBlanks split) (levels : Nat) {v : List Char} (hv : Blanks v)
    (text : List Char) : forestIn split levels (text ++ v) = forestIn split levels text := by
  -- What is behind an open brace is read with one level less.
  induction levels generalizing v text with
  | zero => exact map_keptIn_append_blanks hv (fun _ _ => rfl) text
  | succ levels ih =>
    refine map_keptIn_append_blanks hv (fun name body => ?_) text
    obtain ⟨hquery, w, hw, hinside⟩ := hsplit body v hv
    simp only [Kept.relation, hquery, hinside, ih hw]

/-- The relations in a text are those in its trimmed text. -/
theorem forestIn_trim {split : List Char → Option Request × List Char}
    (hsplit : KeepsBlanks split) (levels : Nat) (text : List Char) :
    forestIn split levels (Text.trim text) = forestIn split levels text := by
  obtain ⟨u, v, hu, hv, htext⟩ := Text.padded_trim text
  have happend := forestIn_append_blanks hsplit levels hv (u ++ Text.trim text)
  rw [← htext, forestIn_blanks_append levels hu] at happend
  exact happend.symm

/-- The relations in the outermost level of a text that begins with no brace are those in the text
    itself. -/
theorem forestIn_outermost {split : List Char → Option Request × List Char}
    (hsplit : KeepsBlanks split) (levels : Nat) {s : List Char}
    (h : ∀ c ∈ (Text.trim s).head?, c ≠ '{') :
    forestIn split levels (outermost s).text = forestIn split levels s := by
  rw [outermost_of_not_open h]
  exact forestIn_trim hsplit levels s

end ListQuery.Relation
