import ListQuery.Proofs.Relation.Accept
import ListQuery.Proofs.Relation.ForestGrammar
import ListQuery.Proofs.Relation.Matching
import ListQuery.Proofs.Relation.Position

/-!
# Objects at the front of blocks

A block that is closed is closed behind everything in it, and so is an object at its front: the
brace of the object is closed before that of the block. A strict reading enters no other blocks, and
therefore never meets an object that is not closed. This is stated by a reading that has any outcome
at all for such an object, and comes to the same.

## Main definitions

- `Policy.splitBlockOr`: a block with any outcome for an object that is not closed;
- `Policy.traceForestBy`: the reading of relations with blocks split in any way.

## Main statements

- `exists_cutBlock_of_front`: an object at the front of a closed block is closed;
- `Policy.traceForestBy_splitBlockOr`: no strict reading depends on the outcome for one that is not;
- `braces_match`: where braces are closed, and what follows for objects.
-/

namespace ListQuery.Relation

open Text (byteLength bytes)

/-! ## §1 Closed blocks -/

/-- An object at the front of a closed block is closed in the block. -/
theorem exists_cutBlock_of_front {s body rest object : List Char}
    (h : cutBlock s = some (body, rest)) (hfront : Text.trimStart body = '{' :: object) :
    ∃ cut, cutBlock object = some cut := by
  have hbody : body = body.takeWhile Text.isBlank ++ '{' :: object := by
    rw [← hfront, Text.takeWhile_append_trimStart]
  have hblanks : Balanced (body.takeWhile Text.isBlank) :=
    balanced_of_blanks fun c hc => List.mem_takeWhile_imp hc
  rw [closing_eq_append h, hbody, List.append_assoc, cutBlock, hblanks] at h
  obtain ⟨⟨front, behind⟩, hcut, heq⟩ := Option.map_eq_some_iff.1 h
  obtain ⟨hcancel, rfl⟩ := Prod.mk.inj heq
  obtain rfl := List.append_cancel_left hcancel
  -- Inside of the object there are two blocks open, and the block is closed behind the object.
  have hinside : closing 1 .outside (object ++ '}' :: behind) = some (object, behind) := by
    simpa [closing, Quoting.next] using hcut
  exact exists_closing_of_deeper hinside

theorem exists_cutBlock_of_mem_pieces {s body : List Char} (h : Piece.block body ∈ pieces s) :
    ∃ t rest, cutBlock t = some (body, rest) := by
  fun_induction pieces s with
  | case1 => exact absurd h List.not_mem_nil
  | case2 s ih => exact ih (by simpa using h)
  | case3 s body' rest hcut _ ih =>
    rcases List.mem_cons.1 h with heq | h
    · obtain rfl := Piece.block.inj heq
      exact ⟨s, rest, hcut⟩
    · exact ih h
  | case4 s _ _ => simp at h
  | case5 c s _ _ ih => exact ih (by simpa using h)

/-- A block of an entry that is closed is closed by the brace behind it. -/
theorem exists_cutBlock_of_mem_entries {level : Span} {e : Entry} (he : e ∈ level.entries)
    {b : Block} (hb : e.block = some b) (hclosed : b.closed = true) :
    ∃ t rest, cutBlock t = some (b.body, rest) := by
  obtain ⟨front, g, behind, hpieces, -, -, rfl⟩ := exists_of_mem_ofGroups he
  obtain ⟨s, ps, rfl, hps⟩ := exists_eq_map_char_append g
  cases ps with
  | nil =>
    rw [List.append_nil, ofPieces_chars] at hb
    cases hb
  | cons p ps =>
    rw [ofPieces_chars_cons _ s (hps p rfl)] at hb
    have hmem : p ∈ pieces level.text := by simp [hpieces]
    cases p with
    | comma | char c => cases hb
    | unclosed body =>
      obtain rfl := Option.some.inj hb
      cases hclosed
    | block body =>
      obtain rfl := Option.some.inj hb
      exact exists_cutBlock_of_mem_pieces hmem

/-! ## §2 Readings with another outcome -/

theorem Trail.bind_congr_of_ok {ω α β : Type} {t : Trail ω α} {f g : α → Trail ω β}
    (h : ∀ a, t.result = .ok a → f a = g a) : t >>= f = t >>= g := by
  obtain ⟨log, result⟩ := t
  cases result with
  | error e => rfl
  | ok a => rw [Trail.bind_ok, Trail.bind_ok, h a rfl]

theorem Trail.gather_congr {ω α β : Type} {f g : α → Trail ω (Option β)} {as : List α}
    (h : ∀ a ∈ as, f a = g a) : Trail.gather f as = Trail.gather g as := by
  induction as with
  | nil => rfl
  | cons a as ih =>
    rw [gather, gather, h a List.mem_cons_self, ih fun b hb => h b (List.mem_cons_of_mem _ hb)]

namespace Policy

variable (policy : Policy) (split : String → Block → Trail Notice BlockParts)

/-- A block with its request taken off, where an object that is not closed has the outcome
    `unclosed`. -/
def splitBlockOr (unclosed : String → Block → Trail Notice BlockParts) (relation : String)
    (b : Block) : Trail Notice BlockParts :=
  match Text.trimStart b.body with
  | '{' :: object =>
    match cutBlock object with
    | none => unclosed relation b
    | some _ => policy.splitBlock relation b
  | _ => policy.splitBlock relation b

/-- Read an entry with blocks split in a given way. -/
def readEntryBy (levels : Nat) (inner : Span → Trail Notice (List Relation)) (e : Entry) :
    Trail Notice (Option Relation) := do
  match ← policy.accept levels e with
  | none => return none
  | some ⟨name, none⟩ => return some { name }
  | some ⟨name, some b⟩ =>
    let parts ← split name b
    let children ←
      match parts.children with
      | some level => inner level
      | none => pure []
    return some { name, query := parts.query, children }

def readLevelBy : (levels : Nat) → Span → Trail Notice (List Relation)
  | 0, level => Trail.gather (policy.readEntryBy split 0 fun _ => pure []) level.entries
  | levels + 1, level =>
    Trail.gather (policy.readEntryBy split (levels + 1) (readLevelBy levels)) level.entries

/-- Read the relations of a relation list with blocks split in a given way. -/
def traceForestBy (source : String) : Trail Notice (List Relation) :=
  policy.readLevelBy split policy.maxDepth (outermost source.toList)

theorem readLevelBy_splitBlock (levels : Nat) (level : Span) :
    policy.readLevelBy policy.splitBlock levels level = policy.readLevel levels level := by
  induction levels generalizing level with
  | zero => rfl
  | succ levels ih =>
    have hinner : policy.readLevelBy policy.splitBlock levels = policy.readLevel levels :=
      funext ih
    rw [readLevelBy, hinner]
    rfl

/-- Blocks that are closed have their objects closed. -/
theorem splitBlockOr_eq (unclosed : String → Block → Trail Notice BlockParts) (relation : String)
    {b : Block} {s rest : List Char} (h : cutBlock s = some (b.body, rest)) :
    policy.splitBlockOr unclosed relation b = policy.splitBlock relation b := by
  unfold splitBlockOr
  split
  · rename_i object hfront
    obtain ⟨cut, hcut⟩ := exists_cutBlock_of_front h hfront
    rw [hcut]
  · rfl

section Strict

variable {split} {split' : String → Block → Trail Notice BlockParts} (maxDepth : Nat)

theorem readEntryBy_congr {levels : Nat} {f g : Span → Trail Notice (List Relation)} {e : Entry}
    (hsplit : ∀ relation b, e.block = some b → b.closed = true →
      split relation b = split' relation b)
    (hinner : ∀ inside, f inside = g inside) :
    (Policy.mk .strict maxDepth).readEntryBy split levels f e =
      (Policy.mk .strict maxDepth).readEntryBy split' levels g e := by
  obtain rfl : f = g := funext hinner
  unfold readEntryBy
  refine Trail.bind_congr_of_ok fun accepted haccepted => ?_
  obtain ⟨hsound, rfl⟩ := (accept_strict_eq_ok_iff maxDepth).1 haccepted
  cases hb : e.block with
  | none => rfl
  | some b =>
    dsimp only
    rw [hsplit _ b hb (hsound.block b hb).1]

/-- A strict reading splits no other blocks than closed ones. -/
theorem readLevelBy_congr
    (hsplit : ∀ relation b s rest, cutBlock s = some (b.body, rest) →
      split relation b = split' relation b) (levels : Nat) (level : Span) :
    (Policy.mk .strict maxDepth).readLevelBy split levels level =
      (Policy.mk .strict maxDepth).readLevelBy split' levels level := by
  have hentry {level : Span} {e : Entry} (he : e ∈ level.entries) (relation : String) (b : Block)
      (hb : e.block = some b) (hclosed : b.closed = true) :
      split relation b = split' relation b := by
    obtain ⟨s, rest, hcut⟩ := exists_cutBlock_of_mem_entries he hb hclosed
    exact hsplit relation b s rest hcut
  induction levels generalizing level with
  | zero =>
    exact Trail.gather_congr fun e he => readEntryBy_congr maxDepth (hentry he) fun _ => rfl
  | succ levels ih =>
    exact Trail.gather_congr fun e he => readEntryBy_congr maxDepth (hentry he) ih

/-- Whatever the outcome for an object that is not closed, a strict reading is the same. -/
theorem traceForestBy_splitBlockOr (unclosed : String → Block → Trail Notice BlockParts)
    (source : String) :
    (Policy.mk .strict maxDepth).traceForestBy
        ((Policy.mk .strict maxDepth).splitBlockOr unclosed) source =
      (Policy.mk .strict maxDepth).traceForest source := by
  unfold traceForestBy traceForest
  rw [← readLevelBy_splitBlock]
  refine readLevelBy_congr maxDepth (fun relation b _ _ hcut => ?_) maxDepth _
  exact splitBlockOr_eq _ unclosed relation hcut

end Strict

end Policy

/-! ## §3 Matching braces -/

/-- Between an opening brace and the one that closes it stands the text of a block. -/
theorem exists_of_closeAt? {source : List Char} {openAt c : Nat}
    (h : closeAt? source openAt = some c) :
    ∃ s body rest, cutBlock s = some (body, rest) ∧
      Text.slice source (openAt + 1) c = some body := by
  unfold closeAt? at h
  split at h
  · rename_i s hs
    obtain ⟨⟨body, rest⟩, hcut, rfl⟩ := Option.map_eq_some_iff.1 h
    refine ⟨s, body, rest, hcut, ?_⟩
    rw [closing_eq_append hcut] at hs
    exact Text.slice_of_dropBytes (Text.dropBytes_add (s := ['{']) hs) rfl
  · cases h

/-- An opening brace is closed at the first position at which, from it on and outside of strings,
    as many braces have been closed as opened. The bytes up to there decide it, and every brace in
    between that stands outside of strings is closed in between. An object at the front of the block
    is closed in the block, and so a strict reading of relations is the same whatever its outcome
    for one that is not. -/
theorem braces_match {source : List Char} {openAt : Nat}
    (hopen : (bytes source)[openAt]? = some '{'.toUInt8) :
    (∀ c, closeAt? source openAt = some c ↔ IsLeast {i | EvenAt source openAt i} c) ∧
    (∀ c, closeAt? source openAt = some c →
      (∀ source', (∀ i, openAt ≤ i → i ≤ c → (bytes source')[i]? = (bytes source)[i]?) →
        closeAt? source' openAt = some c) ∧
      (∀ i, openAt < i → i < c → (bytes source)[i]? = some '{'.toUInt8 →
        stateAt source openAt i = .outside → ∃ c' < c, closeAt? source i = some c') ∧
      ∃ body, Text.slice source (openAt + 1) c = some body ∧
        ((Text.trimStart body).head? = some '{' →
          ∃ c', closeAt? (Text.trimStart body) 0 = some c')) ∧
    ∀ maxDepth unclosed text,
      (Policy.mk .strict maxDepth).traceForestBy
          ((Policy.mk .strict maxDepth).splitBlockOr unclosed) text =
        (Policy.mk .strict maxDepth).traceForest text := by
  refine ⟨fun c => closeAt?_eq_some_iff hopen, fun c hclose => ⟨?_, ?_, ?_⟩, fun maxDepth =>
    Policy.traceForestBy_splitBlockOr maxDepth⟩
  · exact fun source' hagree => closeAt?_congr hopen hclose hagree
  · exact fun i hi hic hinner hstate =>
      exists_closeAt?_of_inside hopen hclose hi hic hinner hstate
  · obtain ⟨s, body, rest, hcut, hslice⟩ := exists_of_closeAt? hclose
    refine ⟨body, hslice, fun hhead => ?_⟩
    obtain ⟨object, hobject⟩ := List.head?_eq_some_iff.1 hhead
    obtain ⟨cut, hclosed⟩ := exists_cutBlock_of_front hcut hobject
    refine ⟨0 + 1 + byteLength cut.1, ?_⟩
    rw [hobject]
    show (cutBlock object).map (fun cut => 0 + 1 + byteLength cut.1) = _
    rw [hclosed]
    rfl

/-- A block with an object at its front, which has a brace in a string, and with a block inside. -/
def objectBlock : List Char :=
  "posts\x7b \x7b\"name\": \"\x7d\"\x7d, author\x7bprofile\x7d\x7d".toList

/-- The block is closed by the last brace, and the block inside in front of it. -/
theorem braces_match_objectBlock :
    (bytes objectBlock)[5]? = some '{'.toUInt8 ∧ closeAt? objectBlock 5 = some 37 ∧
      IsLeast {i | EvenAt objectBlock 5 i} 37 ∧ stateAt objectBlock 5 28 = .outside ∧
      (∃ c < 37, closeAt? objectBlock 28 = some c) ∧
      ∃ body, Text.slice objectBlock 6 37 = some body ∧
        ∃ c, closeAt? (Text.trimStart body) 0 = some c := by
  have hopen : (bytes objectBlock)[5]? = some '{'.toUInt8 := by decide +kernel
  have hclose : closeAt? objectBlock 5 = some 37 := by decide +kernel
  have hstate : stateAt objectBlock 5 28 = .outside := by decide +kernel
  obtain ⟨hleast, hclosed, -⟩ := braces_match hopen
  obtain ⟨-, hinside, body, hslice, hobject⟩ := hclosed 37 hclose
  have hbody : Text.slice objectBlock 6 37 =
      some " \x7b\"name\": \"\x7d\"\x7d, author\x7bprofile\x7d".toList := by decide +kernel
  have hhead : (Text.trimStart body).head? = some '{' := by
    obtain rfl := Option.some.inj (hslice.symm.trans hbody)
    decide +kernel
  exact ⟨hopen, hclose, (hleast 37).1 hclose, hstate,
    hinside 28 (by decide) (by decide) (by decide +kernel) hstate, body, hslice, hobject hhead⟩

end ListQuery.Relation
