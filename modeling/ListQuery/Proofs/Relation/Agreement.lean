import ListQuery.Proofs.Relation.FirstProblem
import ListQuery.Proofs.Relation.ForestGrammar
import ListQuery.Proofs.Relation.PathGrammar

/-!
# The two readers agree

The reading of relations and the reading of paths go through the same entries, and accept them in
the same way. They part at a block that begins with a brace: one takes an object off its front, and
for the other the object is an entry without a name.

A strict reading of paths ends there. So it finds paths exactly where the strict reading of relations
enters no such block and has a result, and they are the paths of the relations. A lenient reading of
paths passes over the nameless entry, together with all that follows the object up to the next comma.
This is where the other reading goes on if nothing but blanks stands between the object and the
comma, and then the lenient readings agree as well.

## Main definitions

- `Policy.entered`: the blocks that a reading of relations enters.

## Main statements

- `exists_nameless_entry`, `entries_content_of_splitBlock`: the entries of a block that begins with
  a brace;
- `Policy.agree_readBlock`: the readings of a block agree if they do not part at it;
- `Policy.agree_traceLevel`: the readings of a level agree if they part at none of its blocks;
- `Policy.not_opens_of_mem_entered`: a strict reading of paths enters no block that begins with a
  brace;
- `readPaths_agrees`: the readings of a relation list.
-/

namespace ListQuery.Relation

open Text (byteLength Blanks)

/-! ## §1 Blocks that begin with a brace -/

namespace Block

/-- Whether a block begins with an opening brace, blanks apart. -/
def Opens (b : Block) : Prop :=
  (Text.trimStart b.body).head? = some '{'

instance (b : Block) : Decidable b.Opens :=
  inferInstanceAs (Decidable (_ = _))

/-- The closed object with which a block begins, blanks apart: the text between its braces, and the
    text behind it. -/
def object? (b : Block) : Option (List Char × List Char) :=
  match Text.trimStart b.body with
  | '{' :: s => cutBlock s
  | _ => none

/-- Whether a comma follows the object with which a block begins, or the end of the block, blanks
    apart. -/
def Separated (b : Block) : Prop :=
  ∀ cut ∈ b.object?, ∀ c ∈ (Text.trimStart cut.2).head?, c = ','

instance (b : Block) : Decidable b.Separated :=
  -- The instances for options; another one would go over all characters.
  @Option.decidableForallMem (List Char × List Char) _
    (fun cut => Option.decidableForallMem (Text.trimStart cut.2).head?) b.object?

variable {b : Block}

theorem Opens.exists_body (h : b.Opens) :
    ∃ u s, Blanks u ∧ b.body = u ++ '{' :: s ∧ Text.trimStart b.body = '{' :: s := by
  obtain ⟨s, hs⟩ := List.head?_eq_some_iff.1 h
  refine ⟨b.body.takeWhile Text.isBlank, s, fun c hc => List.mem_takeWhile_imp hc, ?_, hs⟩
  rw [← hs, Text.takeWhile_append_trimStart]

theorem object?_eq {s : List Char} (h : Text.trimStart b.body = '{' :: s) :
    b.object? = cutBlock s := by
  simp only [object?, h]

theorem not_opens_iff : ¬b.Opens ↔ ∀ c ∈ (Text.trimStart b.body).head?, c ≠ '{' := by
  constructor
  · rintro h c hc rfl
    exact h hc
  · intro h hopens
    exact h _ hopens rfl

end Block

/-! ## §2 The entries of such a block -/

/-- A piece that is no comma stays in front of its group. -/
theorem exists_groups_cons {p : Piece} (hp : p ≠ .comma) (ps : List Piece) :
    ∃ g gs, groups (p :: ps) = (p :: g) :: gs := by
  rw [groups]
  · cases groups ps with
    | nil => exact ⟨[], [], rfl⟩
    | cons g gs => exact ⟨g, gs, rfl⟩
  · exact hp

theorem exists_groups_chars_cons (s : List Char) {p : Piece} (hp : p ≠ .comma) (ps : List Piece) :
    ∃ g gs, groups (s.map .char ++ p :: ps) = (s.map .char ++ p :: g) :: gs := by
  induction s with
  | nil => exact exists_groups_cons hp ps
  | cons c s ih =>
    obtain ⟨g, gs, hgroups⟩ := ih
    refine ⟨g, gs, ?_⟩
    rw [List.map_cons, List.cons_append, groups, hgroups]
    · rfl
    · intro heq
      cases heq

/-- An entry with nothing but blanks in front of its block has no name. -/
theorem relationName_of_blanks {u : List Char} (hu : Blanks u) {p : Piece}
    (hp : p.isChar = false) (offset : Nat) (ps : List Piece) :
    (Entry.ofPieces offset (u.map .char ++ p :: ps)).relationName = [] := by
  rw [ofPieces_chars_cons offset u hp, Entry.relationName_eq_trim, Text.trim_eq_nil_iff]
  · exact hu
  · intro hmem
    exact (isPlain_of_isBlank (hu _ hmem)).1.2.2 rfl

/-- The first entry of a block that begins with a brace has no name. -/
theorem exists_nameless_entry {b : Block} (h : b.Opens) :
    ∃ e es, b.content.entries = e :: es ∧ e.relationName = [] := by
  obtain ⟨u, s, hu, hbody, -⟩ := h.exists_body
  obtain ⟨p, ps, hpieces, hchar, hcomma⟩ :
      ∃ p ps, pieces ('{' :: s) = p :: ps ∧ p.isChar = false ∧ p ≠ .comma := by
    cases hcut : cutBlock s with
    | none => exact ⟨.unclosed s, [], pieces_of_cutBlock_eq_none hcut, rfl, nofun⟩
    | some cut => exact ⟨.block cut.1, _, pieces_of_cutBlock hcut, rfl, nofun⟩
  obtain ⟨g, gs, hgroups⟩ := exists_groups_chars_cons u hcomma ps
  unfold Span.entries Block.content
  dsimp only
  rw [hbody, pieces_blanks_append hu, hpieces, hgroups, Entry.ofGroups]
  exact ⟨_, _, rfl, relationName_of_blanks hu hchar _ _⟩

section Object

variable {u s body : List Char} (hu : Blanks u) (offset : Nat)
include hu

/-- Nothing is left behind an object that is not closed. -/
theorem entries_unclosed (hcut : cutBlock s = none) :
    ∃ e, e.relationName = [] ∧ (⟨u ++ '{' :: s, offset⟩ : Span).entries = [e] := by
  unfold Span.entries
  rw [pieces_blanks_append hu, pieces_of_cutBlock_eq_none hcut,
    groups_of_no_comma (by simp) (by simp)]
  exact ⟨_, relationName_of_blanks hu rfl _ _, rfl⟩

theorem entries_object_blanks {rest : List Char} (hcut : cutBlock s = some (body, rest))
    (hrest : Blanks rest) :
    ∃ e, e.relationName = [] ∧ (⟨u ++ '{' :: s, offset⟩ : Span).entries = [e] := by
  unfold Span.entries
  rw [pieces_blanks_append hu, pieces_of_cutBlock hcut, pieces_of_blanks hrest,
    groups_of_no_comma (by simp) (by simp)]
  exact ⟨_, relationName_of_blanks hu rfl _ _, rfl⟩

/-- A comma behind the object ends its entry. -/
theorem entries_object_comma {v t : List Char} (hcut : cutBlock s = some (body, v ++ ',' :: t))
    (hv : Blanks v) :
    ∃ e, e.relationName = [] ∧ (⟨u ++ '{' :: s, offset⟩ : Span).entries =
      e :: (⟨t, offset + byteLength u + byteLength ('{' :: body ++ ['}']) + byteLength v + 1⟩ :
        Span).entries := by
  have hgroup : Piece.comma ∉ u.map .char ++ .block body :: v.map .char := by simp
  have hbytes : byteLength (texts (u.map .char ++ .block body :: v.map .char)) =
      byteLength u + byteLength ('{' :: body ++ ['}']) + byteLength v := by
    rw [texts_append, texts_map_char, texts_cons, texts_map_char]
    simp only [Piece.text, Text.byteLength_append]
    omega
  unfold Span.entries
  rw [pieces_blanks_append hu, pieces_of_cutBlock hcut, pieces_blanks_append hv, pieces_comma,
    ← List.cons_append, ← List.append_assoc, groups_append_comma hgroup, Entry.ofGroups, hbytes]
  refine ⟨_, relationName_of_blanks hu (p := .block body) rfl offset (v.map .char), ?_⟩
  simp only [Nat.add_assoc]

end Object

/-- Behind the nameless first entry come the entries of the level that the reading of relations finds
    behind the object. -/
theorem entries_content_of_splitBlock {policy : Policy} {relation : String} {b : Block}
    {parts : BlockParts} (hopens : b.Opens) (hseparated : b.Separated)
    (h : (policy.splitBlock relation b).result = .ok parts) :
    ∃ e, e.relationName = [] ∧
      b.content.entries = e :: (parts.children.map Span.entries).getD [] := by
  obtain ⟨u, s, hu, hbody, htrim⟩ := hopens.exists_body
  have hblanks : b.body.takeWhile Text.isBlank = u := by
    have hsplit := Text.takeWhile_append_trimStart b.body
    rw [htrim] at hsplit
    exact List.append_cancel_right (hsplit.trans hbody)
  unfold Policy.splitBlock at h
  dsimp only [Block.content, Span.trimStart] at h ⊢
  simp only [htrim, hblanks] at h
  rw [hbody]
  cases hcut : cutBlock s with
  | none =>
    rw [hcut] at h
    obtain ⟨⟨⟩, -, h⟩ := Trail.result_bind_eq_ok_iff.1 h
    obtain rfl := Except.ok.inj h
    exact entries_unclosed hu _ hcut
  | some cut =>
    obtain ⟨body, rest⟩ := cut
    have hcomma := hseparated (body, rest) ((Block.object?_eq htrim).trans hcut)
    rw [hcut] at h
    obtain ⟨query, -, h⟩ := Trail.result_bind_eq_ok_iff.1 h
    obtain ⟨children, hchildren, h⟩ := Trail.result_bind_eq_ok_iff.1 h
    obtain rfl := Except.ok.inj h
    have hrest := Text.takeWhile_append_trimStart rest
    unfold Policy.levelBehind at hchildren
    dsimp only [Span.trimStart, Span.stop] at hchildren
    cases hbehind : Text.trimStart rest with
    | nil =>
      rw [hbehind] at hchildren
      obtain rfl := Except.ok.inj hchildren
      exact entries_object_blanks hu _ hcut (Text.trimStart_eq_nil_iff.1 hbehind)
    | cons c t =>
      obtain rfl : c = ',' := hcomma c (by rw [hbehind]; rfl)
      rw [hbehind] at hchildren hrest
      obtain rfl := Except.ok.inj hchildren
      rw [← hrest] at hcut
      exact entries_object_comma hu _ hcut fun c hc => List.mem_takeWhile_imp hc

/-! ## §3 Readings that agree -/

/-- The reading of paths finds paths exactly if the other reading has a result, and they are the paths
    of this result. -/
def Agree {α : Type} (pathsOf : α → List String) (t : Trail Finding Unit) (u : Trail Notice α) :
    Prop :=
  ∀ paths, Policy.Finds t paths ↔ ∃ a, u.result = .ok a ∧ pathsOf a = paths

section Agreement

variable {α β : Type} {pathsOf : α → List String}

theorem agree_pure {a : α} (h : pathsOf a = []) : Agree pathsOf (pure ()) (pure a) := by
  intro paths
  rw [Policy.finds_pure_iff]
  constructor
  · rintro rfl
    exact ⟨a, rfl, h⟩
  · rintro ⟨_, ha, rfl⟩
    rw [← Except.ok.inj ha, h]

/-- Readings that begin with the same steps agree if they do after these. -/
theorem agree_bind {t : Trail Notice β} {next : β → Trail Finding Unit}
    {next' : β → Trail Notice α}
    (h : ∀ b, t.result = .ok b → Agree pathsOf (next b) (next' b)) :
    Agree pathsOf (t.mapLog .notice >>= next) (t >>= next') := by
  obtain ⟨log, result⟩ := t
  intro paths
  cases result with
  | error e => exact ⟨fun hfinds => (nomatch hfinds.1), fun ⟨_, hresult, _⟩ => (nomatch hresult)⟩
  | ok b => exact (Policy.finds_notices_bind_iff rfl).trans (h b rfl paths)

/-- Steps that find nothing may come first in either reading. -/
theorem Agree.of_first {t : Trail Finding Unit} {t' : Trail Notice β} {b : β}
    {next : Trail Finding Unit} {next' : β → Trail Notice α} (ht : Policy.Finds t [])
    (ht' : t'.result = .ok b) (h : Agree pathsOf next (next' b)) :
    Agree pathsOf (t >>= fun _ => next) (t' >>= next') := by
  obtain ⟨log, result⟩ := t'
  obtain rfl : result = .ok b := ht'
  intro paths
  rw [Policy.finds_bind_iff, Trail.bind_ok, ← h paths]
  constructor
  · rintro ⟨ps, qs, rfl, hps, hqs⟩
    obtain rfl : ps = [] := hps.2.symm.trans ht.2
    exact hqs
  · exact fun hnext => ⟨[], paths, rfl, ht, hnext⟩

/-- What is made of the result makes no difference if it has the same paths. -/
theorem Agree.then_pure {pathsOf' : β → List String} {t : Trail Finding Unit} {u : Trail Notice α}
    {f : α → β} (h : Agree pathsOf t u) (hf : ∀ a, pathsOf' (f a) = pathsOf a) :
    Agree pathsOf' t (u >>= fun a => pure (f a)) := by
  intro paths
  rw [h paths]
  simp only [Trail.result_bind_eq_ok_iff]
  constructor
  · rintro ⟨a, ha, rfl⟩
    exact ⟨f a, ⟨a, ha, rfl⟩, hf a⟩
  · rintro ⟨_, ⟨a, ha, ⟨⟩⟩, rfl⟩
    exact ⟨a, ha, (hf a).symm⟩

theorem pathsOfAllBelow_append (outer : Option String) (rs ss : List Relation) :
    pathsOfAllBelow outer (rs ++ ss) = pathsOfAllBelow outer rs ++ pathsOfAllBelow outer ss := by
  simp only [pathsOfAllBelow_eq_flatMap, List.flatMap_append]

theorem agree_gather {outer : Option String} {f : Entry → Trail Finding Unit}
    {g : Entry → Trail Notice (Option Relation)} {es : List Entry}
    (h : ∀ e ∈ es, Agree (fun r => pathsOfAllBelow outer r.toList) (f e) (g e)) :
    Agree (pathsOfAllBelow outer) (Trail.forEach f es) (Trail.gather g es) := by
  induction es with
  | nil => exact agree_pure rfl
  | cons e es ih =>
    have hrest := ih fun e' he' => h e' (List.mem_cons_of_mem _ he')
    intro paths
    rw [Trail.forEach, Trail.gather, Policy.finds_bind_iff]
    constructor
    · rintro ⟨ps, qs, rfl, hps, hqs⟩
      obtain ⟨r, hr, rfl⟩ := (h e List.mem_cons_self ps).1 hps
      obtain ⟨rs, hrs, rfl⟩ := (hrest qs).1 hqs
      refine ⟨r.toList ++ rs, ?_, pathsOfAllBelow_append outer _ _⟩
      exact Trail.result_bind_eq_ok_iff.2 ⟨r, hr, Trail.result_bind_eq_ok_iff.2 ⟨rs, hrs, rfl⟩⟩
    · rintro ⟨all, hall, rfl⟩
      obtain ⟨r, hr, hall⟩ := Trail.result_bind_eq_ok_iff.1 hall
      obtain ⟨rs, hrs, hall⟩ := Trail.result_bind_eq_ok_iff.1 hall
      rw [← Except.ok.inj hall, pathsOfAllBelow_append]
      exact ⟨_, _, rfl, (h e List.mem_cons_self _).2 ⟨r, hr, rfl⟩, (hrest _).2 ⟨rs, hrs, rfl⟩⟩

end Agreement

namespace Policy

variable (policy : Policy)

/-- A reading of many entries finds paths at each of them. -/
theorem exists_finds_of_forEach {f : Entry → Trail Finding Unit} {es : List Entry}
    {paths : List String} (h : Finds (Trail.forEach f es) paths) {e : Entry} (he : e ∈ es) :
    ∃ found, Finds (f e) found := by
  induction es generalizing paths with
  | nil => exact absurd he List.not_mem_nil
  | cons d es ih =>
    obtain ⟨ps, qs, -, hps, hqs⟩ := finds_bind_iff.1 h
    rcases List.mem_cons.1 he with rfl | he
    · exact ⟨ps, hps⟩
    · exact ih hqs he

/-! ## §4 The blocks that are entered -/

/-- The blocks that a reading of relations enters, as far as no problem ends it. -/
def entered (policy : Policy) : (levels : Nat) → Span → List Block
  | 0, _ => []
  | levels + 1, level =>
    level.entries.flatMap fun e =>
      match (policy.accept (levels + 1) e).result with
      | .ok (some ⟨relation, some b⟩) =>
        b :: match (policy.splitBlock relation b).result with
          -- The level behind a request, or the whole block.
          | .ok ⟨_, some inside⟩ => policy.entered levels inside
          | _ => []
      | _ => []

/-- A block is entered because its entry is accepted, or on the level inside such a block. -/
theorem mem_entered_iff {levels : Nat} {level : Span} {b : Block} :
    b ∈ policy.entered (levels + 1) level ↔
      ∃ e ∈ level.entries, ∃ relation b',
        (policy.accept (levels + 1) e).result = .ok (some ⟨relation, some b'⟩) ∧
          (b = b' ∨ ∃ query inside,
            (policy.splitBlock relation b').result = .ok ⟨query, some inside⟩ ∧
              b ∈ policy.entered levels inside) := by
  rw [entered, List.mem_flatMap]
  refine exists_congr fun e => and_congr_right fun _ => ?_
  constructor
  · intro hb
    split at hb
    · rename_i relation b' haccept
      refine ⟨relation, b', haccept, ?_⟩
      rcases List.mem_cons.1 hb with rfl | hb
      · exact Or.inl rfl
      · split at hb
        · rename_i query inside hsplit
          exact Or.inr ⟨query, inside, hsplit, hb⟩
        · exact absurd hb List.not_mem_nil
    · exact absurd hb List.not_mem_nil
  · rintro ⟨relation, b', haccept, hb⟩
    rw [haccept]
    rcases hb with rfl | ⟨query, inside, hsplit, hb⟩
    · exact List.mem_cons_self
    · dsimp only
      rw [hsplit]
      exact List.mem_cons_of_mem _ hb

/-! ## §5 Levels -/

/-- The readings of an entry agree if those of its block do. -/
theorem agree_traceEntry {levels : Nat} {outer : Option String} {e : Entry}
    {f : String → Span → Trail Finding Unit} {g : Span → Trail Notice (List Relation)}
    (h : ∀ relation b, (policy.accept levels e).result = .ok (some ⟨relation, some b⟩) →
      Agree (fun read => pathsOfAllBelow (some (pathBelow outer relation)) read.2)
        (f (pathBelow outer relation) b.content) (policy.readBlock g relation b)) :
    Agree (fun r => pathsOfAllBelow outer r.toList) (policy.traceEntry levels f outer e)
      (policy.readEntry levels g e) := by
  rw [readEntry_eq]
  unfold traceEntry
  refine agree_bind fun accepted haccept => ?_
  match accepted with
  | none => exact agree_pure rfl
  | some ⟨relation, none⟩ =>
    intro paths
    rw [finds_bind_iff]
    simp only [finds_leave_path_iff, finds_pure_iff]
    constructor
    · rintro ⟨_, _, rfl, rfl, rfl⟩
      exact ⟨_, rfl, rfl⟩
    · rintro ⟨r, hr, rfl⟩
      rw [← Except.ok.inj hr]
      exact ⟨_, _, rfl, rfl, rfl⟩
  | some ⟨relation, some b⟩ =>
    intro paths
    have hblock := h relation b haccept
    rw [finds_bind_iff]
    simp only [finds_leave_path_iff]
    constructor
    · rintro ⟨_, below, rfl, rfl, hbelow⟩
      obtain ⟨⟨query, rs⟩, hrs, rfl⟩ := (hblock below).1 hbelow
      refine ⟨some { name := relation, query, children := rs }, ?_, by
        simp [pathsOfAllBelow, pathsBelow]⟩
      exact Trail.result_bind_eq_ok_iff.2 ⟨(query, rs), hrs, rfl⟩
    · rintro ⟨r, hr, rfl⟩
      obtain ⟨⟨query, rs⟩, hrs, hr⟩ := Trail.result_bind_eq_ok_iff.1 hr
      rw [← Except.ok.inj hr]
      refine ⟨_, pathsOfAllBelow (some (pathBelow outer relation)) rs, ?_, rfl,
        (hblock _).2 ⟨(query, rs), hrs, rfl⟩⟩
      simp [pathsOfAllBelow, pathsBelow]

/-- A lenient reading of paths passes over an entry without a name. -/
theorem finds_traceEntry_nameless (maxDepth levels : Nat)
    (f : String → Span → Trail Finding Unit) (outer : Option String) {e : Entry}
    (hname : e.relationName = []) :
    Finds ((Policy.mk .lenient maxDepth).traceEntry levels f outer e) [] := by
  obtain ⟨name, block, trailing, strayClose⟩ := e
  have hrest := accept_nameless (e := ⟨name, block, trailing, none⟩) ⟨.lenient, maxDepth⟩ levels
    hname rfl
  unfold traceEntry
  cases strayClose with
  | none =>
    rw [hrest]
    exact ⟨rfl, rfl⟩
  | some offset =>
    rw [accept_of_strayClose _ levels rfl]
    dsimp only
    rw [hrest]
    exact ⟨rfl, rfl⟩

/-- Whether the readings do not part at a block: it is no object that it begins with, or a lenient
    reading finds a comma or the end of the block behind the object. -/
def Joins (b : Block) : Prop :=
  ¬b.Opens ∨ policy.mode = .lenient ∧ b.Separated

/-- The readings of a block agree if they do not part at it and those of the level behind its object
    agree. -/
theorem agree_readBlock {levels : Nat} {path relation : String} {b : Block}
    (hb : policy.Joins b)
    (h : ∀ query inside, (policy.splitBlock relation b).result = .ok ⟨query, some inside⟩ →
      Agree (pathsOfAllBelow (some path)) (policy.traceLevel levels (some path) inside)
        (policy.readLevel levels inside)) :
    Agree (fun read => pathsOfAllBelow (some path) read.2)
      (policy.traceLevel levels (some path) b.content)
      (policy.readBlock (policy.readLevel levels) relation b) := by
  unfold readBlock
  by_cases hopens : b.Opens
  · obtain ⟨mode, maxDepth⟩ := policy
    obtain ⟨rfl, hseparated⟩ := hb.resolve_left (not_not_intro hopens)
    obtain ⟨parts, hparts⟩ := (follows_splitBlock maxDepth relation b).tolerant
    obtain ⟨e, hname, hentries⟩ := entries_content_of_splitBlock hopens hseparated hparts
    have hskip := finds_traceEntry_nameless maxDepth levels
      ((Policy.mk .lenient maxDepth).traceInside levels) (some path) hname
    rw [traceLevel_eq, hentries, Trail.forEach]
    refine Agree.of_first hskip hparts ?_
    obtain ⟨query, children⟩ := parts
    cases children with
    | none => exact agree_pure rfl
    | some inside =>
      have hinside := h query inside hparts
      rw [traceLevel_eq] at hinside
      exact hinside.then_pure fun _ => rfl
  · have hsplit := policy.splitBlock_of_not_open relation (Block.not_opens_iff.1 hopens)
    rw [hsplit, pure_bind]
    exact (h none b.content (congrArg Trail.result hsplit)).then_pure fun _ => rfl

/-- The readings of a level agree if they part at none of the blocks that are entered. -/
theorem agree_traceLevel (levels : Nat) (outer : Option String) (level : Span)
    (h : ∀ b ∈ policy.entered levels level, policy.Joins b) :
    Agree (pathsOfAllBelow outer) (policy.traceLevel levels outer level)
      (policy.readLevel levels level) := by
  induction levels generalizing outer level with
  | zero =>
    refine agree_gather fun e _ => policy.agree_traceEntry fun relation b haccept => ?_
    obtain ⟨-, -, hblock⟩ := policy.of_accept_eq_ok haccept
    exact absurd (hblock b rfl).2 (Nat.lt_irrefl 0)
  | succ levels ih =>
    refine agree_gather fun e he => policy.agree_traceEntry fun relation b haccept => ?_
    have hentered {b' : Block} (hb' : b' = b ∨ ∃ query inside,
        (policy.splitBlock relation b).result = .ok ⟨query, some inside⟩ ∧
          b' ∈ policy.entered levels inside) : b' ∈ policy.entered (levels + 1) level :=
      policy.mem_entered_iff.2 ⟨e, he, relation, b, haccept, hb'⟩
    refine policy.agree_readBlock (h b (hentered (Or.inl rfl))) fun query inside hsplit => ?_
    exact ih _ inside fun b' hb' => h b' (hentered (Or.inr ⟨query, inside, hsplit, hb'⟩))

/-! ## §6 Strict readings -/

/-- A strict reading of paths finds none on a level that begins with a brace. -/
theorem not_opens_of_finds (maxDepth : Nat) {levels : Nat} {outer : Option String} {b : Block}
    {paths : List String}
    (h : Finds ((Policy.mk .strict maxDepth).traceLevel levels outer b.content) paths) :
    ¬b.Opens := by
  intro hopens
  obtain ⟨e, es, hentries, hname⟩ := exists_nameless_entry hopens
  rw [traceLevel_eq, hentries, Trail.forEach] at h
  obtain ⟨ps, -, -, hps, -⟩ := finds_bind_iff.1 h
  exact (sound_of_finds_traceEntry maxDepth hps).1.relationName hname

/-- A strict reading of paths that enters a block finds paths in it. -/
theorem finds_block_of_finds_traceEntry (maxDepth : Nat) {levels : Nat} {outer : Option String}
    {e : Entry} {f : String → Span → Trail Finding Unit} {paths : List String}
    (h : Finds ((Policy.mk .strict maxDepth).traceEntry levels f outer e) paths)
    {relation : String} {b : Block}
    (haccept : ((Policy.mk .strict maxDepth).accept levels e).result =
      .ok (some ⟨relation, some b⟩)) :
    ∃ below, Finds (f (pathBelow outer relation) b.content) below := by
  obtain ⟨-, below, -, hbelow⟩ := sound_of_finds_traceEntry maxDepth h
  obtain ⟨-, heq⟩ := (accept_strict_eq_ok_iff maxDepth).1 haccept
  obtain ⟨rfl, hblock⟩ : relation = String.ofList e.relationName ∧ some b = e.block := by
    simpa using heq
  rw [← hblock] at hbelow
  exact ⟨below, hbelow⟩

/-- A strict reading of relations enters no block that begins with a brace where the strict reading
    of paths finds paths. -/
theorem not_opens_of_mem_entered (maxDepth : Nat) {levels : Nat} {outer : Option String}
    {level : Span} {paths : List String}
    (h : Finds ((Policy.mk .strict maxDepth).traceLevel levels outer level) paths) :
    ∀ b ∈ (Policy.mk .strict maxDepth).entered levels level, ¬b.Opens := by
  induction levels generalizing outer level paths with
  | zero => exact fun _ hb => absurd hb List.not_mem_nil
  | succ levels ih =>
    intro b hb
    obtain ⟨e, he, relation, b', haccept, hb⟩ := (mem_entered_iff _).1 hb
    obtain ⟨found, hfound⟩ := exists_finds_of_forEach h he
    obtain ⟨below, hbelow⟩ := finds_block_of_finds_traceEntry maxDepth hfound haccept
    have hb' := not_opens_of_finds maxDepth hbelow
    rcases hb with rfl | ⟨query, inside, hsplit, hb⟩
    · exact hb'
    · rw [splitBlock_of_not_open _ relation (Block.not_opens_iff.1 hb')] at hsplit
      obtain ⟨⟩ := hsplit
      exact ih hbelow b hb

/-! ## §7 Relation lists -/

/-- The blocks that a reading of the relations of a list enters. -/
def enteredIn (policy : Policy) (source : String) : List Block :=
  policy.entered policy.maxDepth (outermost source.toList)

/-- The readings of a list agree if they part at none of the blocks that are entered. -/
theorem readPaths_eq_ok_iff_readForest {policy : Policy} {source : String}
    (h : ∀ b ∈ policy.enteredIn source, policy.Joins b) (paths : List String) :
    policy.readPaths source = .ok paths ↔
      ∃ rs, policy.readForest source = .ok rs ∧ pathsOfAll rs = paths := by
  have hagree := policy.agree_traceLevel policy.maxDepth none _ h paths
  have hbelow (rs : List Relation) : pathsOfAllBelow none rs = pathsOfAll rs :=
    pathsOfAllBelow_eq_flatMap none rs
  simp only [hbelow] at hagree
  rw [readPaths_eq_ok_iff]
  exact hagree

end Policy

/-- **The two readers agree.** A strict reading of paths has a result if and only if the strict
    reading of relations has one and enters no block that begins with a brace, and the paths are
    those of the relations; so where the reading of relations fails, the reading of paths fails as
    well. Lenient readings agree on every list in which a comma or the end of the block follows
    each closed object that is met, blanks apart. -/
theorem readPaths_agrees (maxDepth : Nat) (source : String) :
    (∀ paths, (Policy.mk .strict maxDepth).readPaths source = .ok paths ↔
      ∃ rs, (Policy.mk .strict maxDepth).readForest source = .ok rs ∧
        (∀ b ∈ (Policy.mk .strict maxDepth).enteredIn source, ¬b.Opens) ∧
        paths = pathsOfAll rs) ∧
    (∀ problem, (Policy.mk .strict maxDepth).readForest source = .error problem →
      ∃ problem', (Policy.mk .strict maxDepth).readPaths source = .error problem') ∧
    ((∀ b ∈ (Policy.mk .lenient maxDepth).enteredIn source, b.Separated) →
      ∃ rs, (Policy.mk .lenient maxDepth).readForest source = .ok rs ∧
        (Policy.mk .lenient maxDepth).readPaths source = .ok (pathsOfAll rs)) := by
  have hstrict (paths : List String) : (Policy.mk .strict maxDepth).readPaths source = .ok paths ↔
      ∃ rs, (Policy.mk .strict maxDepth).readForest source = .ok rs ∧
        (∀ b ∈ (Policy.mk .strict maxDepth).enteredIn source, ¬b.Opens) ∧
        paths = pathsOfAll rs := by
    constructor
    · intro h
      have hnone : ∀ b ∈ (Policy.mk .strict maxDepth).enteredIn source, ¬b.Opens :=
        Policy.not_opens_of_mem_entered maxDepth ((Policy.readPaths_eq_ok_iff _).1 h)
      obtain ⟨rs, hrs, rfl⟩ :=
        (Policy.readPaths_eq_ok_iff_readForest (fun b hb => Or.inl (hnone b hb)) paths).1 h
      exact ⟨rs, hrs, hnone, rfl⟩
    · rintro ⟨rs, hrs, hnone, rfl⟩
      exact (Policy.readPaths_eq_ok_iff_readForest (fun b hb => Or.inl (hnone b hb)) _).2
        ⟨rs, hrs, rfl⟩
  refine ⟨hstrict, fun problem hproblem => ?_, fun hseparated => ?_⟩
  · cases hpaths : (Policy.mk .strict maxDepth).readPaths source with
    | error problem' => exact ⟨problem', rfl⟩
    | ok paths =>
      obtain ⟨rs, hrs, -⟩ := (hstrict paths).1 hpaths
      cases hproblem.symm.trans hrs
  · obtain ⟨rs, hrs⟩ := (Policy.follows_readLevel maxDepth maxDepth _).tolerant
    have hjoins : ∀ b ∈ (Policy.mk .lenient maxDepth).enteredIn source,
        (Policy.mk .lenient maxDepth).Joins b :=
      fun b hb => by
        by_cases hopens : b.Opens
        · exact Or.inr ⟨rfl, hseparated b hb⟩
        · exact Or.inl hopens
    exact ⟨rs, hrs, (Policy.readPaths_eq_ok_iff_readForest hjoins _).2 ⟨rs, hrs, rfl⟩⟩

/-- A malformed list: an object that is no request, an entry without a name, a closing brace that
    closes nothing, a block that is too deep, and an object that is not closed. -/
def malformedList : String :=
  "posts \x7b \x7b\"limit\": -1\x7d , author \x7bprofile\x7d, \x7bx\x7d \x7d, a\x7db, tags \x7b \x7b"

/-- Commas follow the closed objects of the list, so the relations have the paths that are found. -/
theorem readPaths_agrees_malformedList :
    (∀ b ∈ (Policy.mk .lenient 1).enteredIn malformedList, b.Separated) ∧
      ∃ rs, (Policy.mk .lenient 1).readForest malformedList = .ok rs ∧
        pathsOfAll rs = ["posts", "posts.author", "ab", "tags"] := by
  have hseparated : ∀ b ∈ (Policy.mk .lenient 1).enteredIn malformedList, b.Separated := by
    decide +kernel
  have hread : (Policy.mk .lenient 1).readPaths malformedList =
      .ok ["posts", "posts.author", "ab", "tags"] := toOption_eq_some.1 (by decide +kernel)
  obtain ⟨rs, hrs, hpaths⟩ := (readPaths_agrees 1 malformedList).2.2 hseparated
  exact ⟨hseparated, rs, hrs, Except.ok.inj (hpaths.symm.trans hread)⟩

end ListQuery.Relation
