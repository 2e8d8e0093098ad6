import ListQuery.Proofs.Relation.ByteScan
import ListQuery.Proofs.Relation.ForestGrammar
import ListQuery.Proofs.Relation.PathGrammar

/-!
# Reading by byte positions

The two readers of relation lists, written down over the scan by byte positions. Every part of the
text they look at is cut out by a range of positions, every loop has as many steps as there are
bytes, and levels are counted: it is a fault to read one that lies within more blocks than may stand
inside one another.

Both come to the same as the readers that take the text apart by its structure, with the same trail
and the same result or error. So whatever the text and the policy, no range is wrong, no counter
falls below zero, no block is entered beyond the depth that is allowed, and the reading ends.

## Main definitions

- `Checked`: readings that may be at fault;
- `visit`: the entries of a level, one after another;
- `Policy.forestByPositions`, `Policy.pathsByPositions`: the two readers.

## Main statements

- `visit_eq`: the entries that are visited are those of the level;
- `Policy.readings_by_positions`: the readers by positions are never at fault.
-/

namespace ListQuery.Relation

open Text (byteLength dropBytes dropBytes_add)

/-! ## §1 Checked readings -/

/-- A reading of an `α` that leaves a trail of `ω`s and may be at fault. -/
abbrev Checked (ω α : Type) : Type :=
  ExceptT Fault (Trail ω) α

namespace Checked

variable {ω α β : Type}

/-- The reading without a fault. -/
def ofTrail (t : Trail ω α) : Checked ω α :=
  ExceptT.lift t

/-- The reading that scans and leaves nothing. -/
def ofScan (x : Except Fault α) : Checked ω α :=
  ExceptT.mk (pure x)

theorem ofScan_ok (a : α) : (ofScan (.ok a) : Checked ω α) = pure a := rfl

/-- One reading after another is without a fault if both are. -/
theorem ofTrail_bind {t : Trail ω α} {next : α → Trail ω β} {next' : α → Checked ω β}
    (h : ∀ a, t.result = .ok a → next' a = ofTrail (next a)) :
    ofTrail t >>= next' = ofTrail (t >>= next) := by
  refine ExceptT.ext ?_
  rw [ofTrail, ExceptT.run_bind_lift, ofTrail, ExceptT.run_lift, map_bind]
  obtain ⟨log, result⟩ := t
  cases result with
  | error e => rfl
  | ok a =>
    rw [Trail.bind_ok, Trail.bind_ok, h a rfl]
    rfl

end Checked

open Checked (ofTrail ofScan ofTrail_bind)

/-! ## §2 The entries of a level -/

/-- The entries of a level from a position on, each handed to `step` with the reading of the ones
    behind it. -/
def visit {ω α : Type} (level : Span) (step : Entry → Checked ω α → Checked ω α)
    (done : Checked ω α) : (fuel pos : Nat) → Checked ω α
  | 0, _ => throw .endless
  | fuel + 1, pos => do
    match ← ofScan (nextEntry level pos) with
    | none => done
    | some (e, next) => step e (visit level step done fuel next)

/-- What stands behind the first piece is cut into the other ones. -/
theorem exists_pieces_eq_tail {s : List Char} {p : Piece} {ps : List Piece}
    (h : pieces s = p :: ps) : ∃ t, pieces t = ps := by
  cases s with
  | nil =>
    rw [pieces_nil] at h
    cases h
  | cons c s =>
    by_cases hcomma : c = ','
    · rw [hcomma, pieces_comma] at h
      exact ⟨s, (List.cons.inj h).2⟩
    by_cases hopen : c = '{'
    · rw [hopen] at h
      cases hcut : cutBlock s with
      | none =>
        rw [pieces_of_cutBlock_eq_none hcut] at h
        exact ⟨[], pieces_nil.trans (List.cons.inj h).2⟩
      | some parts =>
        rw [pieces_of_cutBlock hcut] at h
        exact ⟨parts.2, (List.cons.inj h).2⟩
    · rw [pieces_char hcomma hopen] at h
      exact ⟨s, (List.cons.inj h).2⟩

/-- The last pieces of a text are those of the text that they make up. -/
theorem pieces_texts_of_append {s : List Char} {g ps : List Piece} (h : pieces s = g ++ ps) :
    pieces (texts ps) = ps := by
  induction g generalizing s with
  | nil => rw [← List.nil_append ps, ← h, texts_pieces]
  | cons p g ih =>
    obtain ⟨t, ht⟩ := exists_pieces_eq_tail h
    exact ih ht

/-- The entries that are visited are those of the level. -/
theorem visit_eq {ω α : Type} {level : Span} (step : Entry → Checked ω α → Checked ω α)
    (done : Checked ω α) {fuel pos : Nat} {rest : List Char}
    (hrest : dropBytes pos level.text = some rest) (hfuel : byteLength rest < fuel) :
    visit level step done fuel pos =
      (Entry.ofGroups (level.offset + pos) (groups (pieces rest))).foldr step done := by
  induction hsize : rest.length using Nat.strong_induction_on generalizing rest fuel pos with
  | _ n ih =>
  obtain ⟨fuel, rfl⟩ := Nat.exists_eq_add_one.2 (Nat.zero_lt_of_lt hfuel)
  have hlength := Text.byteLength_of_dropBytes hrest
  by_cases hne : rest = []
  · subst hne
    rw [visit, nextEntry_end hrest, Checked.ofScan_ok, pure_bind, pieces_nil]
    rfl
  by_cases hcomma : .comma ∈ pieces rest
  · -- The first comma ends the next entry, and the other ones are behind it.
    obtain ⟨g, ps, hpieces, hg⟩ := List.eq_append_cons_of_mem hcomma
    have htail : pieces rest = (g ++ [.comma]) ++ ps := by rw [hpieces, List.append_assoc]; rfl
    have htext : rest = texts g ++ ([','] ++ texts ps) := eq_texts_append hpieces
    have hbehind : dropBytes (pos + byteLength (texts g) + 1) level.text = some (texts ps) :=
      dropBytes_add (s := [',']) (dropBytes_add (htext ▸ hrest))
    have hstop : pos + byteLength (texts g) < byteLength level.text := by
      rw [Text.byteLength_of_dropBytes hbehind]
      omega
    have hshorter : byteLength (texts ps) < fuel := by
      have hcommaLength : byteLength [','] = 1 := rfl
      rw [htext, Text.byteLength_append, Text.byteLength_append] at hfuel
      omega
    have hless : (texts ps).length < n := by
      rw [← hsize, htext, List.length_append, List.length_append, List.length_singleton]
      omega
    rw [visit, nextEntry_eq hrest hne hpieces hg fun p hp => (Option.some.inj hp).symm,
      Checked.ofScan_ok, pure_bind]
    dsimp only
    rw [if_pos hstop, ih _ hless hbehind hshorter rfl, pieces_texts_of_append htail, hpieces,
      groups_append_comma hg, Entry.ofGroups, List.foldr_cons]
    simp only [Nat.add_assoc]
  · -- The entry ends with the text, and there is no other one.
    have hpieces : pieces rest = pieces rest ++ [] := (List.append_nil _).symm
    have hend : dropBytes (pos + byteLength (texts (pieces rest))) level.text = some [] := by
      rw [texts_pieces]
      refine dropBytes_add (hrest.trans ?_)
      rw [List.append_nil]
    have hstop : ¬pos + byteLength (texts (pieces rest)) < byteLength level.text := by
      rw [Text.byteLength_of_dropBytes hend]
      exact Nat.lt_irrefl _
    have hsize := Text.byteLength_pos hne
    obtain ⟨fuel, rfl⟩ : ∃ m, fuel = m + 1 := Nat.exists_eq_add_one.2 (by omega)
    have hnone : ∀ p ∈ ([] : List Piece).head?, p = .comma := fun p hp =>
      absurd hp (Option.not_mem_none p)
    rw [visit, nextEntry_eq hrest hne hpieces hcomma hnone, Checked.ofScan_ok, pure_bind]
    dsimp only
    rw [if_neg hstop, visit, nextEntry_end hend, Checked.ofScan_ok, pure_bind,
      groups_of_no_comma hcomma (pieces_ne_nil hne)]
    rfl

/-- A level is visited from its first byte on, with a step more than it has bytes. -/
theorem visit_entries {ω α : Type} (level : Span) (step : Entry → Checked ω α → Checked ω α)
    (done : Checked ω α) :
    visit level step done (byteLength level.text + 1) 0 = level.entries.foldr step done :=
  visit_eq step done (Text.dropBytes_append [] level.text) (Nat.lt_succ_self _)

/-! ## §3 Blocks -/

namespace Policy

variable (policy : Policy)

/-- The level behind a request. -/
def levelBehindAt (after : Span) : Checked Notice (Option Span) := do
  let start := byteLength after.text - byteLength (Text.trimStart after.text)
  let rest ← ofScan (cut after.text start (byteLength after.text))
  match rest with
  | [] => return none
  | c :: _ =>
    if c = ',' then
      let children ← ofScan (cut rest 1 (byteLength rest))
      return some ⟨children, after.offset + start + 1⟩
    else
      ofTrail (policy.meet (.unexpectedText (String.ofList (Text.trimEnd rest)))
        (after.offset + start))
      return some ⟨rest, after.offset + start⟩

/-- Take the request off the front of a block, if it starts with an object. -/
def splitBlockAt (relation : String) (b : Block) : Checked Notice BlockParts := do
  let start := byteLength b.body - byteLength (Text.trimStart b.body)
  let front ← ofScan (cut b.body start (byteLength b.body))
  let offset := b.openAt + 1 + start
  match front with
  | '{' :: _ =>
    match ← ofScan (matchingClose front 0) with
    | none =>
      ofTrail (policy.meet .unclosedBlock offset (.droppedRequest relation))
      return {}
    | some close =>
      let object ← ofScan (cut front 0 (close + 1))
      let query ← ofTrail (policy.readRequest relation ⟨object, offset⟩)
      let after ← ofScan (cut front (close + 1) (byteLength front))
      let children ← policy.levelBehindAt ⟨after, offset + (close + 1)⟩
      return { query, children }
  | _ => return { children := some b.content }

/-- The blanks at the front of a text can be cut off. -/
theorem cut_trimStart (s : List Char) :
    cut s (byteLength s - byteLength (Text.trimStart s)) (byteLength s) =
      .ok (Text.trimStart s) := by
  have happend := Text.takeWhile_append_trimStart s
  rw [byteLength_sub_trimStart]
  have hdrop : dropBytes (byteLength (s.takeWhile Text.isBlank)) s =
      some (Text.trimStart s ++ []) := by
    refine Text.dropBytes_eq_some_iff.2 ⟨_, ?_, rfl⟩
    rw [List.append_nil, happend]
  refine cut_eq hdrop ?_
  rw [← Text.byteLength_append, happend]

theorem levelBehindAt_eq (after : Span) :
    policy.levelBehindAt after = ofTrail (policy.levelBehind after) := by
  have hstart : after.offset + (byteLength after.text - byteLength (Text.trimStart after.text)) =
      after.trimStart.offset := congrArg _ (byteLength_sub_trimStart after.text)
  have htext : Text.trimStart after.text = after.trimStart.text := rfl
  unfold levelBehindAt levelBehind
  dsimp only
  rw [cut_trimStart, hstart, Checked.ofScan_ok, pure_bind, htext]
  obtain ⟨text, offset⟩ := after.trimStart
  cases text with
  | nil => rfl
  | cons c s =>
    by_cases hc : c = ','
    · have hchildren : cut (c :: s) 1 (byteLength (c :: s)) = .ok s := by
        have hdrop : dropBytes 1 (c :: s) = some (s ++ []) := by
          rw [hc, List.append_nil]
          exact dropBytes_add (n := 0) (s := [',']) rfl
        exact cut_eq hdrop (by rw [hc]; rfl)
      dsimp only
      rw [if_pos hc, if_pos hc, hchildren]
      rfl
    · dsimp only
      rw [if_neg hc, if_neg hc]
      exact ofTrail_bind fun _ _ => rfl

/-- An object at the front of a text is cut out up to its closing brace, and the text behind it from
    there on. -/
theorem cut_object {s body rest : List Char} (h : cutBlock s = some (body, rest)) :
    cut ('{' :: s) 0 (1 + byteLength body + 1) = .ok ('{' :: body ++ ['}']) ∧
      cut ('{' :: s) (1 + byteLength body + 1) (byteLength ('{' :: s)) = .ok rest := by
  have htext : '{' :: s = ('{' :: body ++ ['}']) ++ rest := by
    rw [closing_eq_append h]
    simp
  have hlength : byteLength ('{' :: body ++ ['}']) = 1 + byteLength body + 1 :=
    byteLength_block body
  have hdrop : dropBytes (1 + byteLength body + 1) ('{' :: s) = some (rest ++ []) := by
    rw [htext, List.append_nil, ← hlength]
    exact Text.dropBytes_append _ rest
  constructor
  · exact cut_eq (congrArg some htext) ((Nat.zero_add _).trans hlength)
  · refine cut_eq hdrop ?_
    rw [htext, Text.byteLength_append, hlength]

theorem splitBlockAt_eq (relation : String) (b : Block) :
    policy.splitBlockAt relation b = ofTrail (policy.splitBlock relation b) := by
  have hstart : b.openAt + 1 + (byteLength b.body - byteLength (Text.trimStart b.body)) =
      b.content.trimStart.offset := congrArg _ (byteLength_sub_trimStart b.body)
  have htext : Text.trimStart b.body = b.content.trimStart.text := rfl
  unfold splitBlockAt splitBlock
  dsimp only
  rw [cut_trimStart, hstart, Checked.ofScan_ok, pure_bind, htext]
  obtain ⟨text, offset⟩ := b.content.trimStart
  cases text with
  | nil => rfl
  | cons c s =>
    by_cases hc : c = '{'
    · subst hc
      have hclose : matchingClose ('{' :: s) 0 = _ := matchingClose_of_open rfl
      cases hcut : cutBlock s with
      | none =>
        simp only [hclose, hcut, Option.map_none, Checked.ofScan_ok, pure_bind]
        exact ofTrail_bind fun _ _ => rfl
      | some parts =>
        obtain ⟨body, rest⟩ := parts
        obtain ⟨hobject, hrest⟩ := cut_object hcut
        rw [← Nat.zero_add 1] at hobject hrest
        simp only [hclose, hcut, Option.map_some, Checked.ofScan_ok, pure_bind, hobject, hrest,
          levelBehindAt_eq]
        refine ofTrail_bind fun query _ => ?_
        rw [Nat.zero_add, ← byteLength_block]
        exact ofTrail_bind fun _ _ => rfl
    · -- Neither reader takes the level for an object.
      have hother : ∀ rest, c :: s = '{' :: rest → False := by
        intro rest heq
        exact hc (List.cons.inj heq).1
      simp only
      rfl

/-! ## §4 Relations -/

/-- Read an entry within so many blocks. The level in its block is read by `inner`. -/
def readEntryAt (depth : Nat) (inner : Span → Checked Notice (List Relation)) (e : Entry) :
    Checked Notice (Option Relation) := do
  match ← ofTrail (policy.accept (policy.maxDepth - depth) e) with
  | none => return none
  | some ⟨name, none⟩ => return some { name }
  | some ⟨name, some b⟩ =>
    let parts ← policy.splitBlockAt name b
    let children ←
      match parts.children with
      | some level => inner level
      | none => pure []
    return some { name, query := parts.query, children }

/-- Read the relations of a level within so many blocks, as long as there is a level left to
    read. -/
def readLevelAt : (left depth : Nat) → Span → Checked Notice (List Relation)
  | 0, _, _ => throw .level
  | left + 1, depth, level =>
    visit level
      (fun e behind => do
        let found ← policy.readEntryAt depth (readLevelAt left (depth + 1)) e
        let rest ← behind
        return found.toList ++ rest)
      (pure []) (byteLength level.text + 1) 0

/-- Read the relations of a relation list: its outermost level, and as many levels within it as
    blocks may stand inside one another. -/
def forestByPositions (source : String) : Checked Notice (List Relation) := do
  let level ← ofScan (stripBraces source.toList)
  policy.readLevelAt (policy.maxDepth + 1) 0 level

theorem foldr_gather {ω α : Type} {f : Entry → Trail ω (Option α)}
    {f' : Entry → Checked ω (Option α)} (h : ∀ e, f' e = ofTrail (f e)) (es : List Entry) :
    es.foldr (fun e behind => do
      let found ← f' e
      let rest ← behind
      return found.toList ++ rest) (pure []) = ofTrail (Trail.gather f es) := by
  induction es with
  | nil => rfl
  | cons e es ih =>
    rw [List.foldr_cons, ih, h]
    exact ofTrail_bind fun _ _ => ofTrail_bind fun _ _ => rfl

/-- The block of an entry is entered only with levels left, so that the level in it has to be read
    without a fault only then. -/
theorem readEntryAt_eq {depth : Nat} {g : Span → Trail Notice (List Relation)}
    {inner : Span → Checked Notice (List Relation)}
    (h : 0 < policy.maxDepth - depth → ∀ level, inner level = ofTrail (g level)) (e : Entry) :
    policy.readEntryAt depth inner e =
      ofTrail (policy.readEntry (policy.maxDepth - depth) g e) := by
  unfold readEntryAt readEntry
  refine ofTrail_bind fun accepted haccepted => ?_
  match accepted with
  | none => rfl
  | some ⟨name, none⟩ => rfl
  | some ⟨name, some b⟩ =>
    have hlevels := (of_accept_eq_ok policy haccepted).2.2 b rfl
    dsimp only
    rw [splitBlockAt_eq]
    refine ofTrail_bind fun parts _ => ?_
    obtain ⟨query, children⟩ := parts
    cases children with
    | none => rfl
    | some level =>
      dsimp only
      rw [h hlevels.2 level]
      exact ofTrail_bind fun _ _ => rfl

/-- A level is read without a fault if the levels in its blocks are. -/
theorem readLevelAt_succ {levels left depth : Nat} (h : policy.maxDepth - depth = levels)
    (hinside : 0 < levels → ∀ level,
      policy.readLevelAt left (depth + 1) level = ofTrail (policy.readInside levels level))
    (level : Span) :
    policy.readLevelAt (left + 1) depth level = ofTrail (policy.readLevel levels level) := by
  subst h
  rw [readLevelAt, visit_entries, readLevel_eq]
  exact foldr_gather (policy.readEntryAt_eq hinside) level.entries

/-- With a level left for every block that may stand inside another one, there is no fault. -/
theorem readLevelAt_eq {levels depth : Nat} (h : depth + levels = policy.maxDepth) (level : Span) :
    policy.readLevelAt (levels + 1) depth level = ofTrail (policy.readLevel levels level) := by
  induction levels generalizing depth level with
  | zero =>
    exact policy.readLevelAt_succ (by omega) (fun hpos => absurd hpos (Nat.lt_irrefl 0)) level
  | succ levels ih =>
    exact policy.readLevelAt_succ (by omega) (fun _ inside => ih (by omega) inside) level

/-! ## §5 Paths -/

/-- Read the paths of an entry within so many blocks. The level in its block is read by `inner`. -/
def traceEntryAt (depth : Nat) (inner : String → Span → Checked Finding Unit)
    (outer : Option String) (e : Entry) : Checked Finding Unit := do
  match ← ofTrail ((policy.accept (policy.maxDepth - depth) e).mapLog .notice) with
  | none => return
  | some ⟨name, block⟩ =>
    let path := pathBelow outer name
    ofTrail (.leave (.path path))
    match block with
    | none => return
    | some b => inner path b.content

/-- Read the paths of a level within so many blocks, as long as there is a level left to read. -/
def traceLevelAt : (left depth : Nat) → (outer : Option String) → Span → Checked Finding Unit
  | 0, _, _, _ => throw .level
  | left + 1, depth, outer, level =>
    visit level
      (fun e behind => do
        policy.traceEntryAt depth
          (fun path inside => traceLevelAt left (depth + 1) (some path) inside) outer e
        behind)
      (pure ()) (byteLength level.text + 1) 0

/-- Read the paths of a relation list: its outermost level, and as many levels within it as blocks
    may stand inside one another. -/
def pathsByPositions (source : String) : Checked Finding Unit := do
  let level ← ofScan (stripBraces source.toList)
  policy.traceLevelAt (policy.maxDepth + 1) 0 none level

theorem foldr_forEach {ω : Type} {f : Entry → Trail ω Unit} {f' : Entry → Checked ω Unit}
    (h : ∀ e, f' e = ofTrail (f e)) (es : List Entry) :
    es.foldr (fun e behind => do f' e; behind) (pure ()) = ofTrail (Trail.forEach f es) := by
  induction es with
  | nil => rfl
  | cons e es ih =>
    rw [List.foldr_cons, ih, h]
    exact ofTrail_bind fun _ _ => rfl

theorem traceEntryAt_eq {depth : Nat} {g : String → Span → Trail Finding Unit}
    {inner : String → Span → Checked Finding Unit}
    (h : 0 < policy.maxDepth - depth → ∀ path level, inner path level = ofTrail (g path level))
    (outer : Option String) (e : Entry) :
    policy.traceEntryAt depth inner outer e =
      ofTrail (policy.traceEntry (policy.maxDepth - depth) g outer e) := by
  unfold traceEntryAt traceEntry
  refine ofTrail_bind fun accepted haccepted => ?_
  match accepted with
  | none => rfl
  | some ⟨name, none⟩ => exact ofTrail_bind fun _ _ => rfl
  | some ⟨name, some b⟩ =>
    have hlevels := (of_accept_eq_ok policy haccepted).2.2 b rfl
    exact ofTrail_bind fun _ _ => h hlevels.2 _ b.content

theorem traceLevelAt_succ {levels left depth : Nat} (h : policy.maxDepth - depth = levels)
    (hinside : 0 < levels → ∀ path level, policy.traceLevelAt left (depth + 1) (some path) level =
      ofTrail (policy.traceInside levels path level))
    (outer : Option String) (level : Span) :
    policy.traceLevelAt (left + 1) depth outer level =
      ofTrail (policy.traceLevel levels outer level) := by
  subst h
  rw [traceLevelAt, visit_entries, traceLevel_eq]
  exact foldr_forEach (policy.traceEntryAt_eq hinside outer) level.entries

theorem traceLevelAt_eq {levels depth : Nat} (h : depth + levels = policy.maxDepth)
    (outer : Option String) (level : Span) :
    policy.traceLevelAt (levels + 1) depth outer level =
      ofTrail (policy.traceLevel levels outer level) := by
  induction levels generalizing depth outer level with
  | zero =>
    exact policy.traceLevelAt_succ (by omega) (fun hpos => absurd hpos (Nat.lt_irrefl 0)) outer level
  | succ levels ih =>
    exact policy.traceLevelAt_succ (by omega)
      (fun _ path inside => ih (by omega) (some path) inside) outer level

/-! ## §6 Relation lists -/

/-- **Readings by positions are never at fault.** For every policy and every text, the readers that
    cut the text at byte positions leave the same trail and end with the same result or error as the
    readers of relations and of paths. So every range that is cut is one of the text, no closing
    brace is counted with no block open, every loop ends, and no level within more blocks than the
    policy allows is read. -/
theorem readings_by_positions (policy : Policy) (source : String) :
    (policy.forestByPositions source).run = Except.ok <$> policy.traceForest source ∧
      (policy.pathsByPositions source).run = Except.ok <$> policy.tracePaths source := by
  constructor
  · unfold forestByPositions traceForest
    rw [stripBraces_eq, Checked.ofScan_ok, pure_bind, policy.readLevelAt_eq (Nat.zero_add _)]
    rfl
  · unfold pathsByPositions tracePaths
    rw [stripBraces_eq, Checked.ofScan_ok, pure_bind, policy.traceLevelAt_eq (Nat.zero_add _)]
    rfl

end Policy

end ListQuery.Relation
