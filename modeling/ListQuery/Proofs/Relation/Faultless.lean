import ListQuery.Proofs.Relation.Lenient

/-!
# Texts in which nothing is wrong

A strict reading has a result if nothing is wrong with any entry of the text and with any block that
it goes into. Where the text stands in the list makes a difference only to the positions of what is
reported, so whether a strict reading has a result can be told from the text alone.

The two readers only part at the level that they find inside a block, which is a parameter here.
Each lemma of the second part reads the success of one function as the condition that it checks.

Blanks around a text can do harm, since behind a comma they are an entry without a name, but taking
them away does not.

## Main definitions

- `Entry.SoundWith`: a sound entry, with a condition on its block;
- `Faultless`: a text in which nothing is wrong;
- `levelInside?`: the level inside a block, as a strict reading of relations finds it.

## Main statements

- `Entry.Alike.soundWith_iff`: what is wrong with an entry, wherever it stands;
- `Policy.yields_readLevel_iff`, `Policy.yields_traceLevel_iff`: the levels of which a strict
  reading has a result;
- `Faultless.trim`: blanks around a text can be taken away;
- `exists_readForest_strict_iff`, `exists_readPaths_strict_iff`: the relation lists of which a
  strict reading has a result.
-/

namespace ListQuery.Relation

open Text (Blanks)

/-! ## §1 Entries wherever they stand -/

/-- A sound entry with a condition on the text of its block. -/
def Entry.SoundWith (levels : Nat) (inside : List Char → Prop) (e : Entry) : Prop :=
  e.Sound levels ∧ ∀ b ∈ e.block, inside b.body

/-- With no level left a sound entry has no block. -/
theorem Entry.soundWith_zero_iff (inside inside' : List Char → Prop) (e : Entry) :
    e.SoundWith 0 inside ↔ e.SoundWith 0 inside' :=
  and_congr_right fun h => forall₂_congr fun b hb =>
    absurd (h.block b hb).2.2 (Nat.lt_irrefl 0)

/-- Two entries with the same name and the same block, and the same things wrong with them. -/
structure Entry.Alike (e e' : Entry) : Prop where
  strayClose : e.strayClose = none ↔ e'.strayClose = none
  relationName : e.relationName = e'.relationName
  block : e.block.map (fun b => (b.body, b.closed)) = e'.block.map fun b => (b.body, b.closed)
  trailing : Text.trim e.trailing.text = Text.trim e'.trailing.text

theorem Entry.Alike.symm {e e' : Entry} (h : e.Alike e') : e'.Alike e :=
  ⟨h.strayClose.symm, h.relationName.symm, h.block.symm, h.trailing.symm⟩

theorem Entry.Alike.soundWith {e e' : Entry} (h : e.Alike e') {levels : Nat}
    {inside : List Char → Prop} (hsound : e.SoundWith levels inside) :
    e'.SoundWith levels inside := by
  obtain ⟨⟨hstray, hname, hblock⟩, hinside⟩ := hsound
  have hpartner : ∀ b' ∈ e'.block, ∃ b ∈ e.block, b.body = b'.body ∧ b.closed = b'.closed := by
    intro b' hb'
    have hmap := h.block
    rw [Option.mem_def.1 hb', Option.map_some] at hmap
    obtain ⟨b, hb, heq⟩ := Option.map_eq_some_iff.1 hmap
    obtain ⟨hbody, hclosed⟩ := Prod.mk.inj heq
    exact ⟨b, hb, hbody, hclosed⟩
  refine ⟨⟨h.strayClose.1 hstray, h.relationName ▸ hname, fun b' hb' => ?_⟩, fun b' hb' => ?_⟩
  · obtain ⟨b, hb, -, hclosed⟩ := hpartner b' hb'
    rw [← hclosed, ← h.trailing]
    exact hblock b hb
  · obtain ⟨b, hb, hbody, -⟩ := hpartner b' hb'
    rw [← hbody]
    exact hinside b hb

/-- Two entries that are alike have the same things right with them. -/
theorem Entry.Alike.soundWith_iff {e e' : Entry} (h : e.Alike e') (levels : Nat)
    (inside : List Char → Prop) : e.SoundWith levels inside ↔ e'.SoundWith levels inside :=
  ⟨h.soundWith, h.symm.soundWith⟩

/-- Neither its position nor blanks around it make a difference to an entry. -/
theorem alike_padded (start start' : Nat) {u v : List Char} (hu : Blanks u) (hv : Blanks v)
    (g : List Piece) :
    (Entry.ofPieces start (u.map .char ++ g ++ v.map .char)).Alike (Entry.ofPieces start' g) := by
  have hstray {w : List Char} (hw : Blanks w) : Piece.char '}' ∉ w.map .char := by
    intro hmem
    obtain ⟨c, hc, heq⟩ := List.mem_map.1 hmem
    obtain rfl := Piece.char.inj heq
    exact (isPlain_of_isBlank (hw _ hc)).1.2.2 rfl
  have hclose : Piece.char '}' ∉ u.map .char ++ g ++ v.map .char ↔ Piece.char '}' ∉ g := by
    simp only [List.mem_append, hstray hu, hstray hv, false_or, or_false]
  rw [← strayClose?_eq_none_iff start, ← strayClose?_eq_none_iff start'] at hclose
  obtain ⟨s, rest, rfl, hrest⟩ := exists_eq_map_char_append g
  cases rest with
  | nil =>
    rw [List.append_nil, ← List.map_append, ← List.map_append] at hclose ⊢
    rw [ofPieces_chars, ofPieces_chars]
    refine ⟨hclose, ?_, rfl, rfl⟩
    show nameOf (u ++ s ++ v) = nameOf s
    rw [nameOf_append_blanks hv, nameOf_blanks_append hu]
  | cons p ps =>
    rw [← List.append_assoc, ← List.map_append, List.append_assoc, List.cons_append] at hclose ⊢
    rw [ofPieces_chars_cons start _ (hrest p rfl), ofPieces_chars_cons start' s (hrest p rfl)]
    refine ⟨hclose, nameOf_blanks_append hu s, by cases p <;> rfl, ?_⟩
    show Text.trim (texts (ps ++ v.map .char)) = Text.trim (texts ps)
    rw [texts_append, texts_map_char, Text.trim_append_of_blanks hv]

theorem alike_ofPieces (start start' : Nat) (g : List Piece) :
    (Entry.ofPieces start g).Alike (Entry.ofPieces start' g) := by
  have halike := alike_padded start start' Text.blanks_nil Text.blanks_nil g
  simpa using halike

/-- The entries of a level are those of its groups of pieces. -/
theorem forall_mem_entries_iff (levels : Nat) (inside : List Char → Prop) (level : Span) :
    (∀ e ∈ level.entries, e.SoundWith levels inside) ↔
      ∀ g ∈ groups (pieces level.text), (Entry.ofPieces 0 g).SoundWith levels inside := by
  unfold Span.entries
  generalize groups (pieces level.text) = gs
  generalize level.offset = offset
  induction gs generalizing offset with
  | nil => simp [Entry.ofGroups]
  | cons g gs ih =>
    rw [Entry.ofGroups, List.forall_mem_cons, List.forall_mem_cons, ih,
      (alike_ofPieces offset 0 g).soundWith_iff]

/-! ## §2 Faultless texts -/

/-- A text in which nothing is wrong, with so many levels left inside it: every entry is sound, and
    nothing is wrong with the level that `inside?` finds in its block. -/
def Faultless (inside? : List Char → Option (List Char)) : (levels : Nat) → List Char → Prop
  | 0, text => ∀ g ∈ groups (pieces text), (Entry.ofPieces 0 g).SoundWith 0 fun _ => True
  | levels + 1, text => ∀ g ∈ groups (pieces text), (Entry.ofPieces 0 g).SoundWith (levels + 1)
      fun body => ∃ level, inside? body = some level ∧ Faultless inside? levels level

theorem faultless_nil (inside? : List Char → Option (List Char)) (levels : Nat) :
    Faultless inside? levels [] := by
  cases levels <;> rw [Faultless, pieces_nil] <;> exact nofun

/-- The level behind a request: there has to be a comma in front of it. -/
def levelBehind? (rest : List Char) : Option (List Char) :=
  match Text.trimStart rest with
  | [] => some []
  | c :: s => if c = ',' then some s else none

/-- The level inside a block. An object at its front has to be closed, and to be a request. -/
def levelInside? (body : List Char) : Option (List Char) :=
  match Text.trimStart body with
  | '{' :: s =>
    match cutBlock s with
    | none => none
    | some (object, rest) =>
      match Request.ofChars ('{' :: object ++ ['}']) with
      | .ok _ => levelBehind? rest
      | .error _ => none
  | _ => some body

/-! ## §3 Readings that have a result -/

namespace Trail

variable {ω ω' α β : Type}

/-- A reading has a result, and the result has a property. -/
def Yields (t : Trail ω α) (P : α → Prop) : Prop :=
  ∃ a, t.result = .ok a ∧ P a

theorem yields_pure_iff {a : α} {P : α → Prop} : (Pure.pure a : Trail ω α).Yields P ↔ P a := by
  constructor
  · rintro ⟨_, ⟨⟩, ha⟩
    exact ha
  · intro ha
    exact ⟨a, rfl, ha⟩

theorem yields_bind_iff {t : Trail ω α} {next : α → Trail ω β} {P : β → Prop} :
    (t >>= next).Yields P ↔ t.Yields fun a => (next a).Yields P := by
  unfold Yields
  simp only [result_bind_eq_ok_iff]
  constructor
  · rintro ⟨b, ⟨a, ha, hb⟩, hP⟩
    exact ⟨a, ha, b, hb, hP⟩
  · rintro ⟨a, ha, b, hb, hP⟩
    exact ⟨b, ⟨a, ha, hb⟩, hP⟩

theorem yields_mapLog_iff {t : Trail ω α} {f : ω → ω'} {P : α → Prop} :
    (t.mapLog f).Yields P ↔ t.Yields P :=
  Iff.rfl

theorem yields_and_iff {t : Trail ω α} {P : Prop} :
    t.Yields (fun _ => P) ↔ t.Yields (fun _ => True) ∧ P := by
  unfold Yields
  simp

/-- Many items are read if each of them is. -/
theorem yields_gather_iff {f : α → Trail ω (Option β)} {as : List α} :
    (Trail.gather f as).Yields (fun _ => True) ↔ ∀ a ∈ as, (f a).Yields fun _ => True := by
  induction as with
  | nil => exact ⟨fun _ => nofun, fun _ => yields_pure_iff.2 trivial⟩
  | cons a as ih =>
    rw [gather, yields_bind_iff, List.forall_mem_cons, ← ih]
    simp only [yields_bind_iff, yields_pure_iff]
    exact yields_and_iff

theorem yields_forEach_iff {f : α → Trail ω Unit} {as : List α} :
    (Trail.forEach f as).Yields (fun _ => True) ↔ ∀ a ∈ as, (f a).Yields fun _ => True := by
  induction as with
  | nil => exact ⟨fun _ => nofun, fun _ => yields_pure_iff.2 trivial⟩
  | cons a as ih =>
    rw [forEach, yields_bind_iff, List.forall_mem_cons, ← ih]
    exact yields_and_iff

end Trail

namespace Policy

variable (maxDepth : Nat)

open Trail

theorem not_yields_meet_strict {α : Type} {problem : Problem} {offset : Nat} {effect : Effect}
    {next : Unit → Trail Notice α} {P : α → Prop} :
    ¬((Policy.mk .strict maxDepth).meet problem offset effect >>= next).Yields P := by
  rintro ⟨a, ha, -⟩
  exact result_meet_strict_bind maxDepth ha

theorem yields_accept_iff {levels : Nat} {e : Entry} {P : Option Accepted → Prop} :
    ((Policy.mk .strict maxDepth).accept levels e).Yields P ↔
      e.Sound levels ∧ P (some ⟨String.ofList e.relationName, e.block⟩) := by
  unfold Yields
  simp only [accept_strict_eq_ok_iff]
  constructor
  · rintro ⟨a, ⟨hsound, rfl⟩, ha⟩
    exact ⟨hsound, ha⟩
  · rintro ⟨hsound, ha⟩
    exact ⟨_, ⟨hsound, rfl⟩, ha⟩

theorem yields_readRequest_iff {relation : String} {object : Span} {P : Prop} :
    ((Policy.mk .strict maxDepth).readRequest relation object).Yields (fun _ => P) ↔
      (∃ q, Request.ofChars object.text = .ok q) ∧ P := by
  unfold readRequest
  cases Request.ofChars object.text with
  | ok q => simp [yields_pure_iff]
  | error e => exact iff_of_false (not_yields_meet_strict maxDepth) (by simp)

/-- The text of the level that is found, which is nothing if no level is. -/
theorem yields_levelBehind_iff {after : Span} {P : List Char → Prop} :
    ((Policy.mk .strict maxDepth).levelBehind after).Yields
        (fun children => P ((children.map Span.text).getD [])) ↔
      ∃ level, levelBehind? after.text = some level ∧ P level := by
  unfold levelBehind levelBehind?
  dsimp only [Span.trimStart]
  cases Text.trimStart after.text with
  | nil => simp [yields_pure_iff]
  | cons c s =>
    dsimp only
    split
    · simp [yields_pure_iff]
    · exact iff_of_false (not_yields_meet_strict maxDepth) (by simp)

/-- The text of the level inside a block, which is nothing if there is none. -/
theorem yields_splitBlock_iff {relation : String} {b : Block} {P : List Char → Prop} :
    ((Policy.mk .strict maxDepth).splitBlock relation b).Yields
        (fun parts => P ((parts.children.map Span.text).getD [])) ↔
      ∃ level, levelInside? b.body = some level ∧ P level := by
  by_cases hopens : b.Opens
  · obtain ⟨-, s, -, -, htrim⟩ := hopens.exists_body
    unfold splitBlock levelInside?
    dsimp only [Block.content, Span.trimStart]
    simp only [htrim]
    cases cutBlock s with
    | none => exact iff_of_false (not_yields_meet_strict maxDepth) (by simp)
    | some cut =>
      simp only [yields_bind_iff, yields_pure_iff, yields_levelBehind_iff, yields_readRequest_iff]
      cases Request.ofChars ('{' :: cut.1 ++ ['}']) <;> simp
  · have hhead := Block.not_opens_iff.1 hopens
    have hlevel : levelInside? b.body = some b.body := by
      unfold levelInside?
      split
      · rename_i s heq
        exact absurd rfl (hhead '{' (by rw [heq]; rfl))
      · rfl
    rw [splitBlock_of_not_open _ relation hhead, yields_pure_iff, hlevel]
    simp [Block.content]

/-- The relations in a block are read if those on the level inside it are. -/
theorem yields_readBlock_iff {inner : Span → Trail Notice (List Relation)} {Q : List Char → Prop}
    (hinner : ∀ level, (inner level).Yields (fun _ => True) ↔ Q level.text) (hnil : Q [])
    {relation : String} {b : Block} :
    ((Policy.mk .strict maxDepth).readBlock inner relation b).Yields (fun _ => True) ↔
      ∃ level, levelInside? b.body = some level ∧ Q level := by
  rw [← yields_splitBlock_iff maxDepth]
  unfold readBlock
  rw [yields_bind_iff]
  refine exists_congr fun parts => and_congr_right fun _ => ?_
  obtain ⟨query, children⟩ := parts
  cases children with
  | none => exact iff_of_true (yields_pure_iff.2 trivial) hnil
  | some level =>
    dsimp only
    rw [yields_bind_iff]
    simp only [yields_pure_iff]
    exact hinner level

theorem yields_readEntry_iff {levels : Nat} {inner : Span → Trail Notice (List Relation)}
    {Q : List Char → Prop} (hinner : ∀ level, (inner level).Yields (fun _ => True) ↔ Q level.text)
    (hnil : Q []) {e : Entry} :
    ((Policy.mk .strict maxDepth).readEntry levels inner e).Yields (fun _ => True) ↔
      e.SoundWith levels fun body => ∃ level, levelInside? body = some level ∧ Q level := by
  rw [readEntry_eq, yields_bind_iff, yields_accept_iff]
  refine and_congr_right fun _ => ?_
  cases e.block with
  | none => exact iff_of_true (yields_pure_iff.2 trivial) (by simp)
  | some b =>
    unfold readAccepted
    rw [yields_bind_iff]
    simp only [yields_pure_iff]
    rw [yields_readBlock_iff maxDepth hinner hnil]
    simp

theorem yields_traceEntry_iff {levels : Nat} {inner : String → Span → Trail Finding Unit}
    {Q : List Char → Prop}
    (hinner : ∀ path level, (inner path level).Yields (fun _ => True) ↔ Q level.text)
    {outer : Option String} {e : Entry} :
    ((Policy.mk .strict maxDepth).traceEntry levels inner outer e).Yields (fun _ => True) ↔
      e.SoundWith levels fun body => ∃ level, some body = some level ∧ Q level := by
  unfold traceEntry
  rw [yields_bind_iff, yields_mapLog_iff, yields_accept_iff]
  refine and_congr_right fun _ => ?_
  dsimp only
  rw [yields_bind_iff]
  have hleave (path : String) {P : Prop} :
      (Trail.leave (Finding.path path)).Yields (fun _ => P) ↔ P := by
    simp [Yields, Trail.leave]
  rw [hleave]
  cases e.block with
  | none => exact iff_of_true (yields_pure_iff.2 trivial) (by simp)
  | some b => simp [hinner, Block.content]

/-- A strict reading of the relations of a level has a result if and only if nothing is wrong in the
    text of the level. -/
theorem yields_readLevel_iff (levels : Nat) (level : Span) :
    ((Policy.mk .strict maxDepth).readLevel levels level).Yields (fun _ => True) ↔
      Faultless levelInside? levels level.text := by
  induction levels generalizing level with
  | zero =>
    rw [readLevel, yields_gather_iff, Faultless, ← forall_mem_entries_iff]
    refine forall₂_congr fun e _ => ?_
    rw [yields_readEntry_iff maxDepth (Q := fun _ => True)
      (fun _ => iff_of_true (yields_pure_iff.2 trivial) trivial) trivial]
    exact Entry.soundWith_zero_iff _ _ e
  | succ levels ih =>
    rw [readLevel, yields_gather_iff, Faultless, ← forall_mem_entries_iff]
    exact forall₂_congr fun e _ => yields_readEntry_iff maxDepth ih (faultless_nil _ levels)

/-- A strict reading of the paths of a level has a result if and only if nothing is wrong in the
    text of the level, all of every block being taken for a level. -/
theorem yields_traceLevel_iff (levels : Nat) (outer : Option String) (level : Span) :
    ((Policy.mk .strict maxDepth).traceLevel levels outer level).Yields (fun _ => True) ↔
      Faultless some levels level.text := by
  induction levels generalizing outer level with
  | zero =>
    rw [traceLevel, yields_forEach_iff, Faultless, ← forall_mem_entries_iff]
    refine forall₂_congr fun e _ => ?_
    rw [yields_traceEntry_iff maxDepth (Q := fun _ => True)
      fun _ _ => iff_of_true (yields_pure_iff.2 trivial) trivial]
    exact Entry.soundWith_zero_iff _ _ e
  | succ levels ih =>
    rw [traceLevel, yields_forEach_iff, Faultless, ← forall_mem_entries_iff]
    exact forall₂_congr fun e _ => yields_traceEntry_iff maxDepth fun path => ih (some path)

end Policy

/-! ## §4 Blanks around a faultless text -/

/-- A brace that stays open does so with more blanks behind it. -/
theorem unclosed_append {v : List Char} (hv : '}' ∉ v) {s body : List Char}
    (h : Piece.unclosed body ∈ pieces s) : Piece.unclosed (body ++ v) ∈ pieces (s ++ v) := by
  fun_induction pieces s with
  | case1 => exact absurd h List.not_mem_nil
  | case2 s ih =>
    rw [List.cons_append, pieces_comma]
    exact List.mem_cons_of_mem _ (ih ((List.mem_cons.1 h).resolve_left (by simp)))
  | case3 s block rest hcut _ ih =>
    have hcut' : cutBlock (s ++ v) = some (block, rest ++ v) := closing_append v hcut
    rw [List.cons_append, pieces_of_cutBlock hcut']
    exact List.mem_cons_of_mem _ (ih ((List.mem_cons.1 h).resolve_left (by simp)))
  | case4 s hcut _ =>
    have hcut' : cutBlock (s ++ v) = none := closing_append_eq_none hv hcut
    obtain rfl := Piece.unclosed.inj (List.mem_singleton.1 h)
    rw [List.cons_append, pieces_of_cutBlock_eq_none hcut']
    exact List.mem_cons_self
  | case5 c s hcomma hopen ih =>
    rw [List.cons_append, pieces_char hcomma hopen]
    exact List.mem_cons_of_mem _ (ih ((List.mem_cons.1 h).resolve_left (by simp)))

/-- No brace stays open in a sound entry. -/
theorem Entry.Sound.unclosed_notMem {start levels : Nat} {g : List Piece}
    (h : (Entry.ofPieces start g).Sound levels) (hcomma : Piece.comma ∉ g) (body : List Char) :
    Piece.unclosed body ∉ g := by
  obtain ⟨s, rest, rfl, hrest⟩ := exists_eq_map_char_append g
  intro hmem
  rcases List.mem_append.1 hmem with hmem | hmem
  · exact absurd (isChar_of_mem_map_char _ hmem) nofun
  · cases rest with
    | nil => exact absurd hmem List.not_mem_nil
    | cons p ps =>
      have hblock := h.block
      rw [ofPieces_chars_cons start s (hrest p rfl)] at hblock
      cases p with
      | char c => exact absurd (hrest _ rfl) nofun
      | comma => exact hcomma (List.mem_append_right _ List.mem_cons_self)
      | unclosed b => exact absurd (hblock _ rfl).1 nofun
      | block b =>
        -- Behind the block there are only blanks.
        have hblanks : Blanks (texts ps) := Text.trim_eq_nil_iff.1 (hblock _ rfl).2.1
        have hps : Piece.unclosed body ∈ ps := (List.mem_cons.1 hmem).resolve_left nofun
        have hopen : '{' ∈ texts ps := List.mem_flatMap.2 ⟨_, hps, List.mem_cons_self⟩
        exact absurd (hblanks _ hopen) (by decide)

/-- With blanks behind the pieces, the last group may get longer, and all others stay. -/
theorem exists_mem_groups_append_blanks {v : List Char} {ps g : List Piece} (hv : Blanks v)
    (hg : g ∈ groups ps) :
    ∃ w, Blanks w ∧ g ++ w.map .char ∈ groups (ps ++ v.map .char) := by
  -- The induction goes from comma to comma, so that only the last group meets the blanks.
  induction hlength : ps.length using Nat.strong_induction_on generalizing ps with
  | _ length ih =>
    by_cases hcomma : Piece.comma ∈ ps
    · obtain ⟨qs, rest, rfl, hqs⟩ := List.eq_append_cons_of_mem hcomma
      rw [groups_append_comma hqs] at hg
      rw [List.append_assoc, List.cons_append, groups_append_comma hqs]
      rcases List.mem_cons.1 hg with rfl | hg
      · exact ⟨[], Text.blanks_nil, by simp⟩
      · have hshorter : rest.length < length := by
          rw [← hlength, List.length_append, List.length_cons]
          omega
        obtain ⟨w, hw, hmem⟩ := ih _ hshorter hg rfl
        exact ⟨w, hw, List.mem_cons_of_mem _ hmem⟩
    · obtain ⟨rfl, hne⟩ := eq_of_mem_groups hcomma hg
      have hcomma' : Piece.comma ∉ g ++ v.map .char := by simpa using hcomma
      rw [groups_of_no_comma hcomma' (by simp [hne])]
      exact ⟨v, hv, List.mem_cons_self⟩

/-- With blanks in front of the pieces, the first group may get longer, and all others stay. -/
theorem exists_mem_groups_blanks_append {u : List Char} {ps g : List Piece} (hu : Blanks u)
    (hg : g ∈ groups ps) :
    ∃ w, Blanks w ∧ w.map .char ++ g ∈ groups (u.map .char ++ ps) := by
  by_cases hcomma : Piece.comma ∈ ps
  · obtain ⟨qs, rest, rfl, hqs⟩ := List.eq_append_cons_of_mem hcomma
    have hqs' : Piece.comma ∉ u.map .char ++ qs := by simpa using hqs
    rw [groups_append_comma hqs] at hg
    rw [← List.append_assoc, groups_append_comma hqs']
    rcases List.mem_cons.1 hg with rfl | hg
    · exact ⟨u, hu, List.mem_cons_self⟩
    · exact ⟨[], Text.blanks_nil, List.mem_cons_of_mem _ hg⟩
  · obtain ⟨rfl, hne⟩ := eq_of_mem_groups hcomma hg
    have hcomma' : Piece.comma ∉ u.map .char ++ g := by simpa using hcomma
    rw [groups_of_no_comma hcomma' (by simp [hne])]
    exact ⟨u, hu, List.mem_cons_self⟩

/-- If all entries of a text are sound, so are those of the trimmed text. -/
theorem soundWith_trim {levels : Nat} {inside : List Char → Prop} {text : List Char}
    (h : ∀ g ∈ groups (pieces text), (Entry.ofPieces 0 g).SoundWith levels inside) :
    ∀ g ∈ groups (pieces (Text.trim text)), (Entry.ofPieces 0 g).SoundWith levels inside := by
  obtain ⟨u, v, hu, hv, htext⟩ := Text.padded_trim text
  generalize Text.trim text = s at htext ⊢
  rw [List.append_assoc] at htext
  subst htext
  rw [pieces_blanks_append hu] at h
  have hclosed : ∀ body, Piece.unclosed body ∉ pieces s := by
    intro body hmem
    have hclose : '}' ∉ v := fun hmem => (isPlain_of_isBlank (hv _ hmem)).1.2.2 rfl
    have hopen := List.mem_append_right (u.map .char) (unclosed_append hclose hmem)
    obtain ⟨g, hg, hmem⟩ := exists_mem_groups hopen nofun
    exact (h g hg).1.unclosed_notMem (comma_notMem_of_mem_groups hg) _ hmem
  rw [pieces_append hclosed, pieces_of_blanks hv] at h
  intro g hg
  obtain ⟨w, hw, hg⟩ := exists_mem_groups_append_blanks hv hg
  obtain ⟨w', hw', hg⟩ := exists_mem_groups_blanks_append hu hg
  rw [← List.append_assoc (w'.map Piece.char)] at hg
  exact (alike_padded 0 0 hw' hw g).soundWith (h _ hg)

/-- Blanks around a text in which nothing is wrong can be taken away. -/
theorem Faultless.trim {inside? : List Char → Option (List Char)} {levels : Nat}
    {text : List Char} (h : Faultless inside? levels text) :
    Faultless inside? levels (Text.trim text) := by
  cases levels with
  | zero => exact soundWith_trim h
  | succ levels => exact soundWith_trim h

/-! ## §5 Relation lists -/

/-- A strict reading of relations has a result if nothing is wrong in the outermost level. -/
theorem exists_readForest_strict_iff (maxDepth : Nat) (source : String) :
    (∃ rs, (Policy.mk .strict maxDepth).readForest source = .ok rs) ↔
      Faultless levelInside? maxDepth (outermost source.toList).text := by
  rw [← Policy.yields_readLevel_iff maxDepth]
  exact exists_congr fun rs => (and_iff_left trivial).symm

/-- A strict reading of paths has a result if nothing is wrong in the outermost level, embedded
    requests included. -/
theorem exists_readPaths_strict_iff (maxDepth : Nat) (source : String) :
    (∃ paths, (Policy.mk .strict maxDepth).readPaths source = .ok paths) ↔
      Faultless some maxDepth (outermost source.toList).text := by
  rw [← Policy.yields_traceLevel_iff maxDepth maxDepth none]
  constructor
  · rintro ⟨paths, hpaths⟩
    obtain ⟨found, hfound, -⟩ := map_eq_ok.1 hpaths
    exact ⟨found, hfound, trivial⟩
  · rintro ⟨found, hfound, -⟩
    exact ⟨_, map_eq_ok.2 ⟨found, hfound, rfl⟩⟩

end ListQuery.Relation
