import ListQuery.Proofs.Relation.Level
import ListQuery.Relation.Accept
import Mathlib.Data.List.TakeWhile

/-!
# Entries that are accepted

The pieces of an entry are characters first, which make up its name. The first piece that is no
character is the entry's block, and the pieces behind it make up the text behind the block.

An entry is *sound* when there is nothing wrong with it: it has a name, closes nothing that is not
open, and its block is closed, has only blanks behind it, and may be entered. Sound entries are
accepted as they are under either mode, and a strict reading accepts no others.

## Main statements

- `ofPieces_chars`, `ofPieces_chars_cons`: the entry of pieces without and with a block;
- `strayClose?_eq_none_iff`, `strayClose?_eq_some_iff`: the brace that closes nothing among the
  pieces;
- `Policy.accept_of_sound`: a sound entry is accepted;
- `Policy.of_accept_eq_ok`: with what an entry is accepted;
- `Policy.accept_strict_eq_ok_iff`: what a strict reading accepts.
-/

namespace ListQuery.Relation

open Text (byteLength)

/-! ## §1 The pieces of an entry -/

theorem texts_map_char (s : List Char) : texts (s.map .char) = s := by
  induction s with
  | nil => rfl
  | cons c s ih =>
    rw [List.map_cons, texts_cons, ih]
    rfl

theorem isChar_of_mem_map_char {s : List Char} : ∀ p ∈ s.map Piece.char, p.isChar = true := by
  intro p hp
  obtain ⟨c, -, rfl⟩ := List.mem_map.1 hp
  rfl

/-- Pieces are characters up to the first piece that is none. -/
theorem exists_eq_map_char_append (ps : List Piece) :
    ∃ (s : List Char) (rest : List Piece), ps = s.map .char ++ rest ∧
      ∀ p ∈ rest.head?, p.isChar = false := by
  induction ps with
  | nil => exact ⟨[], [], rfl, by simp⟩
  | cons p ps ih =>
    cases p with
    | char c =>
      obtain ⟨s, rest, rfl, hrest⟩ := ih
      exact ⟨c :: s, rest, rfl, hrest⟩
    | comma => exact ⟨[], .comma :: ps, rfl, by simp [Piece.isChar]⟩
    | block body => exact ⟨[], .block body :: ps, rfl, by simp [Piece.isChar]⟩
    | unclosed body => exact ⟨[], .unclosed body :: ps, rfl, by simp [Piece.isChar]⟩

/-- Pieces that are no closing braces are passed over. -/
theorem strayClose?_append {ps : List Piece} (h : .char '}' ∉ ps) (offset : Nat)
    (qs : List Piece) :
    strayClose? offset (ps ++ qs) = strayClose? (offset + byteLength (texts ps)) qs := by
  induction ps generalizing offset with
  | nil => rfl
  | cons p ps ih =>
    rw [List.mem_cons, not_or] at h
    rw [List.cons_append, strayClose?, ih h.2, texts_cons, Text.byteLength_append, Nat.add_assoc]
    exact fun heq => h.1 heq.symm

/-- A brace closes nothing if and only if it is a piece by itself. -/
theorem strayClose?_eq_none_iff (offset : Nat) (ps : List Piece) :
    strayClose? offset ps = none ↔ .char '}' ∉ ps := by
  constructor
  · intro hnone hmem
    obtain ⟨f, qs, rfl, hf⟩ := List.eq_append_cons_of_mem hmem
    rw [strayClose?_append hf] at hnone
    cases hnone
  · intro h
    rw [← List.append_nil ps, strayClose?_append h]
    rfl

/-- The position is that of the first closing brace among the pieces. -/
theorem strayClose?_eq_some_iff {offset n : Nat} {ps : List Piece} :
    strayClose? offset ps = some n ↔
      ∃ f qs, ps = f ++ .char '}' :: qs ∧ .char '}' ∉ f ∧ n = offset + byteLength (texts f) := by
  constructor
  · intro h
    have hmem : .char '}' ∈ ps := by
      by_contra hmem
      rw [(strayClose?_eq_none_iff offset ps).2 hmem] at h
      cases h
    obtain ⟨f, qs, rfl, hf⟩ := List.eq_append_cons_of_mem hmem
    rw [strayClose?_append hf] at h
    exact ⟨f, qs, rfl, hf, (Option.some.inj h).symm⟩
  · rintro ⟨f, qs, rfl, hf, rfl⟩
    rw [strayClose?_append hf]
    rfl

theorem ofPieces_strayClose (offset : Nat) (ps : List Piece) :
    (Entry.ofPieces offset ps).strayClose = strayClose? offset ps := by
  unfold Entry.ofPieces
  dsimp only
  split <;> rfl

/-- The entry of characters is a name. -/
theorem ofPieces_chars (offset : Nat) (s : List Char) :
    Entry.ofPieces offset (s.map .char) =
      ⟨⟨s, offset⟩, none, ⟨[], offset + byteLength s⟩, strayClose? offset (s.map .char)⟩ := by
  have htake : (s.map Piece.char).takeWhile Piece.isChar = s.map .char :=
    List.takeWhile_eq_self_iff.2 isChar_of_mem_map_char
  have hdrop : (s.map Piece.char).dropWhile Piece.isChar = [] :=
    List.dropWhile_eq_nil_iff.2 isChar_of_mem_map_char
  simp only [Entry.ofPieces, htake, hdrop, texts_map_char]
  rfl

/-- The first piece of an entry that is no character is its block. -/
theorem ofPieces_chars_cons (offset : Nat) (s : List Char) {p : Piece} (hp : p.isChar = false)
    (ps : List Piece) :
    Entry.ofPieces offset (s.map .char ++ p :: ps) =
      ⟨⟨s, offset⟩, p.block? (offset + byteLength s),
        ⟨texts ps, offset + byteLength s + byteLength p.text⟩,
        strayClose? offset (s.map .char ++ p :: ps)⟩ := by
  have hchar : ¬p.isChar = true := by simp [hp]
  have htake : (s.map Piece.char ++ p :: ps).takeWhile Piece.isChar = s.map .char := by
    rw [List.takeWhile_append_of_pos isChar_of_mem_map_char, List.takeWhile_cons_of_neg hchar,
      List.append_nil]
  have hdrop : (s.map Piece.char ++ p :: ps).dropWhile Piece.isChar = p :: ps := by
    rw [List.dropWhile_append_of_pos isChar_of_mem_map_char, List.dropWhile_cons_of_neg hchar]
  simp only [Entry.ofPieces, htake, hdrop, texts_map_char]
  rfl

/-! ## §2 Sound entries -/

/-- An entry that has nothing wrong with it, with so many levels left inside it. -/
structure Entry.Sound (e : Entry) (levels : Nat) : Prop where
  strayClose : e.strayClose = none
  relationName : e.relationName ≠ []
  block : ∀ b ∈ e.block, b.closed = true ∧ Text.trim e.trailing.text = [] ∧ 0 < levels

/-- Without a closing brace in it, the text of the name only has its blanks taken off. -/
theorem Entry.relationName_eq_trim {e : Entry} (h : '}' ∉ e.name.text) :
    e.relationName = Text.trim e.name.text := by
  have hfilter : e.name.text.filter (· ≠ '}') = e.name.text := by
    rw [List.filter_eq_self]
    intro c hc
    exact decide_eq_true fun heq => h (heq ▸ hc)
  unfold Entry.relationName
  rw [hfilter]

namespace Policy

variable (policy : Policy) {levels : Nat} {e : Entry}

/-- A brace that closes nothing is met first, and the entry is then checked as if there was none. -/
theorem accept_of_strayClose (levels : Nat) {offset : Nat} (h : e.strayClose = some offset) :
    policy.accept levels e = (do
      policy.meet .unmatchedClose offset
      policy.accept levels { e with strayClose := none }) := by
  obtain ⟨name, block, trailing, strayClose⟩ := e
  obtain rfl : strayClose = some offset := h
  rfl

/-- An entry without a name is not accepted. -/
theorem accept_nameless (levels : Nat) (hname : e.relationName = [])
    (hstray : e.strayClose = none) :
    policy.accept levels e = (do policy.meet .emptyName e.name.offset; pure none) := by
  have hempty : (String.ofList []).isEmpty = true := rfl
  unfold accept
  simp [hstray, hname, hempty]

/-- An entry with a name has its block checked. -/
theorem accept_named (levels : Nat) (hname : e.relationName ≠ []) (hstray : e.strayClose = none) :
    policy.accept levels e =
      match e.block with
      | none => pure (some ⟨String.ofList e.relationName, none⟩)
      | some b => do
        policy.checkBlock e b
        return some ⟨String.ofList e.relationName,
          ← policy.enterBlock levels (String.ofList e.relationName) b⟩ := by
  have hne : ¬(String.ofList e.relationName).isEmpty = true := by simpa using hname
  unfold accept
  rw [hstray]
  exact if_neg hne

/-- A sound entry is accepted with its name and its block. -/
theorem accept_of_sound (h : e.Sound levels) :
    policy.accept levels e = pure (some ⟨String.ofList e.relationName, e.block⟩) := by
  obtain ⟨hstray, hname, hblock⟩ := h
  rw [accept_named policy levels hname hstray]
  cases hb : e.block with
  | none => rfl
  | some b =>
    obtain ⟨hclosed, htrailing, hlevels⟩ := hblock b hb
    have hcheck : policy.checkBlock e b = pure () := by
      unfold checkBlock
      simp [hclosed, htrailing]
    have henter (name : String) : policy.enterBlock levels name b = pure (some b) := by
      unfold enterBlock
      rw [if_neg (Nat.pos_iff_ne_zero.1 hlevels)]
    simp only [hcheck, henter, pure_bind]

/-- An entry is accepted with its name, and with its block only if there are levels left. -/
theorem of_accept_eq_ok {name : String} {block : Option Block}
    (h : (policy.accept levels e).result = .ok (some ⟨name, block⟩)) :
    e.relationName ≠ [] ∧ name = String.ofList e.relationName ∧
      ∀ b ∈ block, e.block = some b ∧ 0 < levels := by
  -- A brace that closes nothing makes no difference to what is accepted.
  obtain ⟨span, own, trailing, strayClose⟩ := e
  have hrest : (policy.accept levels ⟨span, own, trailing, none⟩).result =
      .ok (some ⟨name, block⟩) := by
    cases strayClose with
    | none => exact h
    | some offset =>
      rw [accept_of_strayClose policy levels rfl] at h
      obtain ⟨-, -, h⟩ := Trail.result_bind_eq_ok_iff.1 h
      exact h
  have hname : Entry.relationName ⟨span, own, trailing, none⟩ ≠ [] := by
    intro hname
    rw [accept_nameless policy levels hname rfl] at hrest
    obtain ⟨-, -, hrest⟩ := Trail.result_bind_eq_ok_iff.1 hrest
    cases hrest
  rw [accept_named policy levels hname rfl] at hrest
  cases own with
  | none =>
    obtain ⟨⟩ := hrest
    exact ⟨hname, rfl, nofun⟩
  | some b =>
    obtain ⟨-, -, hrest⟩ := Trail.result_bind_eq_ok_iff.1 hrest
    obtain ⟨entered, henter, hrest⟩ := Trail.result_bind_eq_ok_iff.1 hrest
    obtain ⟨⟩ := hrest
    refine ⟨hname, rfl, ?_⟩
    rintro b' rfl
    unfold enterBlock at henter
    split at henter
    · obtain ⟨-, -, henter⟩ := Trail.result_bind_eq_ok_iff.1 henter
      cases henter
    · rename_i hlevels
      exact ⟨Except.ok.inj henter, Nat.pos_of_ne_zero hlevels⟩

/-! ## §3 Strict readings -/

variable (maxDepth : Nat)

/-- A strict reading that meets a problem has no result. -/
theorem result_meet_strict_bind {α : Type} {problem : Problem} {offset : Nat} {effect : Effect}
    {next : Unit → Trail Notice α} {a : α} :
    ((Policy.mk .strict maxDepth).meet problem offset effect >>= next).result ≠ .ok a :=
  nofun

theorem checkBlock_strict_eq_ok {b : Block}
    (h : ((Policy.mk .strict maxDepth).checkBlock e b).result = .ok ()) :
    b.closed = true ∧ Text.trim e.trailing.text = [] := by
  unfold checkBlock at h
  cases hclosed : b.closed with
  | false =>
    rw [hclosed] at h
    exact absurd h (result_meet_strict_bind maxDepth)
  | true =>
    cases htrailing : Text.trim e.trailing.text with
    | nil => exact ⟨rfl, rfl⟩
    | cons c s =>
      rw [hclosed, htrailing] at h
      cases h

/-- A strict reading accepts sound entries and no others. -/
theorem accept_strict_eq_ok_iff {a : Option Accepted} :
    ((Policy.mk .strict maxDepth).accept levels e).result = .ok a ↔
      e.Sound levels ∧ a = some ⟨String.ofList e.relationName, e.block⟩ := by
  constructor
  · intro h
    have hstray : e.strayClose = none := by
      rw [Option.eq_none_iff_forall_ne_some]
      intro offset hstray
      rw [accept_of_strayClose _ levels hstray] at h
      exact result_meet_strict_bind maxDepth h
    have hname : e.relationName ≠ [] := by
      intro hname
      rw [accept_nameless _ levels hname hstray] at h
      exact result_meet_strict_bind maxDepth h
    have hblock : ∀ b ∈ e.block,
        b.closed = true ∧ Text.trim e.trailing.text = [] ∧ 0 < levels := by
      intro b hb
      rw [accept_named _ levels hname hstray, Option.mem_def.1 hb] at h
      obtain ⟨⟨⟩, hcheck, h⟩ := Trail.result_bind_eq_ok_iff.1 h
      obtain ⟨hclosed, htrailing⟩ := checkBlock_strict_eq_ok maxDepth hcheck
      refine ⟨hclosed, htrailing, Nat.pos_of_ne_zero ?_⟩
      rintro rfl
      obtain ⟨_, henter, -⟩ := Trail.result_bind_eq_ok_iff.1 h
      exact result_meet_strict_bind maxDepth henter
    have hsound : e.Sound levels := ⟨hstray, hname, hblock⟩
    rw [accept_of_sound _ hsound] at h
    exact ⟨hsound, (Except.ok.inj h).symm⟩
  · rintro ⟨hsound, rfl⟩
    rw [accept_of_sound _ hsound]
    rfl

end Policy

end ListQuery.Relation
