import ListQuery.Proofs.Relation.Accept
import ListQuery.Proofs.Text.Range

/-!
# Scanning by byte positions

The entries of a level can be found without lists of pieces: by going through the bytes of its text
with a position, counting braces, and cutting the parts of an entry out of the text at the positions
that were passed. Done in this way things can go wrong. A range may end before it begins, past the
end of the text or inside a character, a counter may fall below zero, and a loop may not end.

Here this scan is written down with every such *fault* as an outcome of its own, and proved to come
to the same entries as the cut into pieces. So no fault occurs, whatever the text.

## Main definitions

- `Fault`: what can go wrong;
- `cut`: the text in a range, or a fault;
- `matchingClose`, `scanEntry`, `nextEntry`, `stripBraces`: the scan.

## Main statements

- `matchingClose_eq`: the brace that closes another one is found;
- `nextEntry_eq`: the next entry is that of the next group of pieces;
- `stripBraces_eq`: the outermost level is found.
-/

namespace ListQuery.Relation

open Text (byteLength bytes dropBytes dropBytes_add)

/-! ## §1 Faults -/

/-- What can go wrong in a scan by positions. -/
inductive Fault where
  /-- Two positions that are no range of the text. -/
  | range (start stop : Nat)
  /-- A closing brace that is counted with no block open. -/
  | depth
  /-- A loop that takes more steps than there are bytes. -/
  | endless
  /-- A level that is read below the last one. -/
  | level
  deriving DecidableEq, Repr

/-- The text between two positions. It is a fault if they are no range, see `slice_eq_some_iff`. -/
def cut (source : List Char) (start stop : Nat) : Except Fault (List Char) :=
  match Text.slice source start stop with
  | some s => .ok s
  | none => .error (.range start stop)

/-- The part of a text that stands at a position can be cut out. -/
theorem cut_eq {source s rest : List Char} {start stop : Nat}
    (h : dropBytes start source = some (s ++ rest)) (hstop : start + byteLength s = stop) :
    cut source start stop = .ok s := by
  unfold cut
  rw [Text.slice_of_dropBytes h hstop]

/-! ## §2 The closing brace -/

/-- The state behind a byte. -/
def Quoting.nextByte : Quoting → UInt8 → Quoting
  | .outside, b => if b = '"'.toUInt8 then .inside else .outside
  | .inside, b =>
    if b = '\\'.toUInt8 then .escaped else if b = '"'.toUInt8 then .outside else .inside
  | .escaped, _ => .inside

/-- Go through bytes from a position on, with so many blocks open, to the brace that closes them
    all. -/
def closeIn : List UInt8 → (pos depth : Nat) → Quoting → Except Fault (Option Nat)
  | [], _, _, _ => .ok none
  | b :: bs, pos, depth, .outside =>
    if b = '{'.toUInt8 then closeIn bs (pos + 1) (depth + 1) .outside
    else if b = '}'.toUInt8 then
      match depth with
      | 0 => .error .depth
      | 1 => .ok (some pos)
      | depth + 2 => closeIn bs (pos + 1) (depth + 1) .outside
    else closeIn bs (pos + 1) depth (Quoting.outside.nextByte b)
  | b :: bs, pos, depth, q => closeIn bs (pos + 1) depth (q.nextByte b)

/-- The position of the brace that closes the one at the given position. -/
def matchingClose (source : List Char) (openAt : Nat) : Except Fault (Option Nat) :=
  if (bytes source)[openAt]? = some '{'.toUInt8 then
    closeIn ((bytes source).drop openAt) openAt 0 .outside
  else .ok none

theorem foldl_nextByte_of_fixed {q : Quoting} {bs : List UInt8} (h : ∀ b ∈ bs, q.nextByte b = q) :
    bs.foldl Quoting.nextByte q = q := by
  induction bs with
  | nil => rfl
  | cons b bs ih =>
    rw [List.foldl_cons, h b List.mem_cons_self]
    exact ih fun b' hb' => h b' (List.mem_cons_of_mem _ hb')

/-- Going through the bytes of a character is going past the character. -/
theorem foldl_nextByte (q : Quoting) (c : Char) :
    (String.utf8EncodeChar c).foldl Quoting.nextByte q = q.next c := by
  have hquote {b : UInt8} (hb : b ∈ String.utf8EncodeChar c) : b = '"'.toUInt8 ↔ c = '"' :=
    Text.eq_toUInt8_iff (by decide) hb
  have hslash {b : UInt8} (hb : b ∈ String.utf8EncodeChar c) : b = '\\'.toUInt8 ↔ c = '\\' :=
    Text.eq_toUInt8_iff (by decide) hb
  by_cases hc : c.toNat < 0x80
  · have hmem : c.toUInt8 ∈ String.utf8EncodeChar c :=
      (Text.toUInt8_mem_utf8EncodeChar_iff hc).2 rfl
    rw [Text.utf8EncodeChar_ascii hc, List.foldl_cons, List.foldl_nil]
    cases q <;> simp only [Quoting.nextByte, Quoting.next, hquote hmem, hslash hmem]
  · -- None of the bytes is one that matters, and the first one takes the state out of `escaped`.
    have hne : c ≠ '"' ∧ c ≠ '\\' :=
      ⟨by rintro rfl; exact hc (by decide), by rintro rfl; exact hc (by decide)⟩
    have hinside {b : UInt8} (hb : b ∈ String.utf8EncodeChar c) :
        Quoting.inside.nextByte b = .inside := by
      simp only [Quoting.nextByte, hquote hb, hslash hb, hne, if_false]
    cases q with
    | outside =>
      refine (foldl_nextByte_of_fixed fun b hb => ?_).trans (if_neg hne.1).symm
      simp only [Quoting.nextByte, hquote hb, hne, if_false]
    | inside =>
      rw [foldl_nextByte_of_fixed fun b hb => hinside hb]
      simp only [Quoting.next, hne, if_false]
    | escaped =>
      cases hbytes : String.utf8EncodeChar c with
      | nil => exact absurd hbytes String.utf8EncodeChar_ne_nil
      | cons b bs =>
        refine foldl_nextByte_of_fixed fun b' hb' => hinside ?_
        rw [hbytes]
        exact List.mem_cons_of_mem _ hb'

/-- A byte that is not counted: one inside of a string, or no brace. -/
def Uncounted (q : Quoting) (b : UInt8) : Prop :=
  q = .outside → b ≠ '{'.toUInt8 ∧ b ≠ '}'.toUInt8

theorem closeIn_uncounted {q : Quoting} {b : UInt8} (h : Uncounted q b) (bs : List UInt8)
    (pos depth : Nat) :
    closeIn (b :: bs) pos depth q = closeIn bs (pos + 1) depth (q.nextByte b) := by
  cases q with
  | outside => exact (if_neg (h rfl).1).trans (if_neg (h rfl).2)
  | inside => rfl
  | escaped => rfl

/-- Bytes that are no braces leave the number of open blocks as it is. -/
theorem closeIn_append {bs : List UInt8} (h : ∀ b ∈ bs, b ≠ '{'.toUInt8 ∧ b ≠ '}'.toUInt8)
    (rest : List UInt8) (pos depth : Nat) (q : Quoting) :
    closeIn (bs ++ rest) pos depth q =
      closeIn rest (pos + bs.length) depth (bs.foldl Quoting.nextByte q) := by
  induction bs generalizing pos q with
  | nil => rfl
  | cons b bs ih =>
    have hb : Uncounted q b := fun _ => h b List.mem_cons_self
    rw [List.cons_append, closeIn_uncounted hb, ih fun b' hb' => h b' (List.mem_cons_of_mem _ hb'),
      List.length_cons, List.foldl_cons, Nat.add_assoc, Nat.add_comm 1]

/-- With a block open, the counter does not fall below zero, and the brace is found that closes all
    blocks. -/
theorem closeIn_bytes (s : List Char) (pos depth : Nat) (q : Quoting) :
    closeIn (bytes s) pos (depth + 1) q =
      .ok ((closing depth q s).map fun parts => pos + byteLength parts.1) := by
  induction s generalizing pos depth q with
  | nil => cases q <;> rfl
  | cons c s ih =>
    -- Behind a character the position has grown by the size of the character.
    have hnext (depth : Nat) (q : Quoting) :
        closeIn (bytes s) (pos + c.utf8Size) (depth + 1) q =
          .ok (((closing depth q s).map fun parts => (c :: parts.1, parts.2)).map
            fun parts => pos + byteLength parts.1) := by
      rw [ih, Option.map_map]
      simp only [Function.comp_def, Text.byteLength_cons, Nat.add_assoc]
    by_cases hopen : c = '{'
    · subst hopen
      cases q with
      | outside => exact hnext (depth + 1) .outside
      | inside => exact hnext depth .inside
      | escaped => exact hnext depth .inside
    by_cases hclose : c = '}'
    · subst hclose
      cases q with
      | outside =>
        cases depth with
        | zero => rfl
        | succ depth => exact hnext depth .outside
      | inside => exact hnext depth .inside
      | escaped => exact hnext depth .inside
    have hplain : ∀ b ∈ String.utf8EncodeChar c, b ≠ '{'.toUInt8 ∧ b ≠ '}'.toUInt8 :=
      fun b hb => ⟨fun h => hopen ((Text.eq_toUInt8_iff (by decide) hb).1 h),
        fun h => hclose ((Text.eq_toUInt8_iff (by decide) hb).1 h)⟩
    rw [Text.bytes_cons, closeIn_append hplain, foldl_nextByte, String.length_utf8EncodeChar, hnext]
    cases q with
    | outside => simp only [closing, if_neg hclose, if_neg hopen]
    | inside => rfl
    | escaped => rfl

/-- The brace that closes another one is found, whatever the text and the position. -/
theorem matchingClose_eq (source : List Char) (openAt : Nat) :
    matchingClose source openAt = .ok (closeAt? source openAt) := by
  unfold matchingClose closeAt?
  split
  · rename_i hbyte
    obtain ⟨rest, hrest⟩ := (Text.getElem?_bytes_eq_toUInt8_iff (by decide)).1 hbyte
    rw [Text.bytes_of_dropBytes hrest, hrest]
    exact closeIn_bytes rest (openAt + 1) 0 .outside
  · rename_i hbyte
    split
    · rename_i s hs
      exact absurd ((Text.getElem?_bytes_eq_toUInt8_iff (by decide)).2 ⟨s, hs⟩) hbyte
    · rfl

/-! ## §3 The next entry -/

/-- What the scan of an entry has passed. -/
structure Passed where
  /-- The first block, by the positions of its braces. -/
  block : Option (Nat × Option Nat) := none
  /-- The first closing brace that closes nothing. -/
  strayClose : Option Nat := none

/-- Go from a position on to the comma that ends an entry, or to the end. Positions outside the
    text count from `base`. -/
def scanEntry (source : List Char) (base : Nat) :
    (fuel pos : Nat) → Passed → Except Fault (Nat × Passed)
  | 0, _, _ => throw .endless
  | fuel + 1, pos, passed =>
    match (bytes source)[pos]? with
    | none => return (pos, passed)
    | some b =>
      if b = ','.toUInt8 then return (pos, passed)
      else if b = '{'.toUInt8 then do
        match ← matchingClose source pos with
        | some close =>
          -- Only the first block is the entry's.
          scanEntry source base fuel (close + 1)
            { passed with block := passed.block.or (some (pos, some close)) }
        | none =>
          return ((bytes source).length,
            { passed with block := passed.block.or (some (pos, none)) })
      else if b = '}'.toUInt8 then
        scanEntry source base fuel (pos + 1)
          { passed with strayClose := passed.strayClose.or (some (base + pos)) }
      else scanEntry source base fuel (pos + 1) passed

/-- The first block among the pieces of an entry that starts at a position. -/
def firstBlock? (pos : Nat) : List Piece → Option (Nat × Option Nat)
  | [] => none
  | .block body :: _ => some (pos, some (pos + 1 + byteLength body))
  | .unclosed _ :: _ => some (pos, none)
  | p :: ps => firstBlock? (pos + byteLength p.text) ps

variable {source : List Char}

/-- The byte of a comma or a brace at a position. -/
theorem getElem?_bytes_of_ascii {pos : Nat} {c : Char} {s : List Char} (hc : c.toNat < 0x80)
    (h : dropBytes pos source = some (c :: s)) : (bytes source)[pos]? = some c.toUInt8 :=
  (Text.getElem?_bytes_eq_toUInt8_iff hc).2 ⟨s, h⟩

/-- The brace that closes a block is found where the cut into pieces finds it. -/
theorem matchingClose_of_open {pos : Nat} {s : List Char}
    (h : dropBytes pos source = some ('{' :: s)) :
    matchingClose source pos = .ok ((cutBlock s).map fun parts => pos + 1 + byteLength parts.1) := by
  rw [matchingClose_eq, closeAt?, h]
  rfl

theorem byteLength_block (body : List Char) :
    byteLength (Piece.block body).text = 1 + byteLength body + 1 :=
  (Text.byteLength_append ('{' :: body) ['}']).trans rfl

section Steps

variable (base fuel : Nat) {pos : Nat} (passed : Passed) {s : List Char}

theorem scanEntry_end (h : dropBytes pos source = some []) :
    scanEntry source base (fuel + 1) pos passed = .ok (pos, passed) := by
  have hnone : (bytes source)[pos]? = none := by
    rw [List.getElem?_eq_none_iff, Text.length_bytes, Text.byteLength_of_dropBytes h]
    exact Nat.le_refl pos
  rw [scanEntry, hnone]
  rfl

theorem scanEntry_comma (h : dropBytes pos source = some (',' :: s)) :
    scanEntry source base (fuel + 1) pos passed = .ok (pos, passed) := by
  rw [scanEntry, getElem?_bytes_of_ascii (by decide) h]
  rfl

/-- A closed block is passed as a whole. -/
theorem scanEntry_block {body rest : List Char} (h : dropBytes pos source = some ('{' :: s))
    (hcut : cutBlock s = some (body, rest)) :
    scanEntry source base (fuel + 1) pos passed =
      scanEntry source base fuel (pos + byteLength (Piece.block body).text)
        { passed with block := passed.block.or (some (pos, some (pos + 1 + byteLength body))) } := by
  have hclose := matchingClose_of_open h
  rw [hcut, Option.map_some] at hclose
  rw [scanEntry, getElem?_bytes_of_ascii (by decide) h]
  dsimp only
  rw [if_neg (by decide), if_pos rfl, hclose, byteLength_block, ← Nat.add_assoc, ← Nat.add_assoc]
  rfl

/-- A block that is not closed takes everything behind it along. -/
theorem scanEntry_unclosed (h : dropBytes pos source = some ('{' :: s)) (hcut : cutBlock s = none) :
    scanEntry source base (fuel + 1) pos passed = .ok (pos + byteLength (Piece.unclosed s).text,
      { passed with block := passed.block.or (some (pos, none)) }) := by
  have hclose := matchingClose_of_open h
  rw [hcut, Option.map_none] at hclose
  rw [scanEntry, getElem?_bytes_of_ascii (by decide) h]
  dsimp only
  rw [if_neg (by decide), if_pos rfl, hclose, Text.length_bytes, Text.byteLength_of_dropBytes h]
  rfl

theorem scanEntry_close (h : dropBytes pos source = some ('}' :: s)) :
    scanEntry source base (fuel + 1) pos passed = scanEntry source base fuel (pos + 1)
      { passed with strayClose := passed.strayClose.or (some (base + pos)) } := by
  rw [scanEntry, getElem?_bytes_of_ascii (by decide) h]
  dsimp only
  rw [if_neg (by decide), if_neg (by decide), if_pos rfl]

/-- A character that is no comma and no brace is passed byte by byte. -/
theorem scanEntry_char {c : Char} (h : dropBytes pos source = some (c :: s))
    (hc : c ≠ ',' ∧ c ≠ '{' ∧ c ≠ '}') :
    scanEntry source base (fuel + c.utf8Size) pos passed =
      scanEntry source base fuel (pos + c.utf8Size) passed := by
  -- Any number of its last bytes can be passed.
  suffices hbytes : ∀ k i, i + k = c.utf8Size →
      scanEntry source base (fuel + k) (pos + i) passed =
        scanEntry source base fuel (pos + c.utf8Size) passed from
    hbytes c.utf8Size 0 (Nat.zero_add _)
  intro k
  induction k with
  | zero =>
    rintro i rfl
    rfl
  | succ k ih =>
    intro i hi
    have hlt : i < c.utf8Size := by omega
    obtain ⟨b, hb, hbyte⟩ := Text.exists_getElem?_bytes h hlt
    have hcomma : b ≠ ','.toUInt8 := mt (Text.eq_toUInt8_iff (by decide) hb).1 hc.1
    have hopen : b ≠ '{'.toUInt8 := mt (Text.eq_toUInt8_iff (by decide) hb).1 hc.2.1
    have hclose : b ≠ '}'.toUInt8 := mt (Text.eq_toUInt8_iff (by decide) hb).1 hc.2.2
    have hnext := ih (i + 1) (by omega)
    rw [← Nat.add_assoc, scanEntry, hbyte]
    dsimp only
    rw [if_neg hcomma, if_neg hopen, if_neg hclose, Nat.add_assoc pos i 1, hnext]

end Steps

/-- A piece that is no comma belongs to the group in front of the next comma. -/
theorem exists_group_cons {p : Piece} {ps g behind : List Piece} (h : p :: ps = g ++ behind)
    (hp : p ≠ .comma) (hbehind : ∀ q ∈ behind.head?, q = .comma) :
    ∃ g', g = p :: g' ∧ ps = g' ++ behind := by
  cases g with
  | nil => exact absurd (hbehind p (congrArg List.head? h.symm)) hp
  | cons q g' =>
    obtain ⟨rfl, hps⟩ := List.cons.inj h
    exact ⟨g', rfl, hps⟩

/-- The scan ends behind the first group of pieces, and has passed what the group has. -/
theorem scanEntry_eq (base : Nat) {fuel pos : Nat} {rest : List Char} (passed : Passed)
    {g behind : List Piece} (hrest : dropBytes pos source = some rest)
    (hpieces : pieces rest = g ++ behind) (hg : .comma ∉ g)
    (hbehind : ∀ p ∈ behind.head?, p = .comma) (hfuel : byteLength rest < fuel) :
    scanEntry source base fuel pos passed = .ok (pos + byteLength (texts g),
      ⟨passed.block.or (firstBlock? pos g), passed.strayClose.or (strayClose? (base + pos) g)⟩) := by
  fun_induction pieces rest generalizing fuel pos passed g with
  | case1 =>
    obtain ⟨rfl, rfl⟩ := List.append_eq_nil_iff.1 hpieces.symm
    obtain ⟨fuel, rfl⟩ := Nat.exists_eq_add_one.2 hfuel
    rw [scanEntry_end base fuel passed hrest, firstBlock?, strayClose?, Option.or_none,
      Option.or_none]
    rfl
  | case2 s ih =>
    obtain ⟨fuel, rfl⟩ := Nat.exists_eq_add_one.2 (Nat.zero_lt_of_lt hfuel)
    cases g with
    | nil =>
      rw [scanEntry_comma base fuel passed hrest, firstBlock?, strayClose?, Option.or_none,
        Option.or_none]
      rfl
    | cons p g =>
      obtain ⟨rfl, -⟩ := List.cons.inj hpieces
      exact absurd List.mem_cons_self hg
  | case3 s body rest hcut _ ih =>
    obtain ⟨fuel, rfl⟩ := Nat.exists_eq_add_one.2 (Nat.zero_lt_of_lt hfuel)
    obtain ⟨g, rfl, htail⟩ := exists_group_cons hpieces Piece.noConfusion hbehind
    have htext : '{' :: s = (Piece.block body).text ++ rest := by
      rw [closing_eq_append hcut]
      simp [Piece.text]
    have hdrop := dropBytes_add (htext ▸ hrest)
    have hshorter : byteLength rest < fuel := by
      rw [htext, Text.byteLength_append, byteLength_block] at hfuel
      omega
    have hstray : strayClose? (base + pos) (.block body :: g) =
        strayClose? (base + (pos + byteLength (Piece.block body).text)) g := by
      rw [strayClose?, Nat.add_assoc]
      exact Piece.noConfusion
    rw [scanEntry_block base fuel passed hrest hcut, ih _ hdrop htail
      (fun hmem => hg (List.mem_cons_of_mem _ hmem)) hshorter, hstray, texts_cons,
      Text.byteLength_append, Nat.add_assoc, Option.or_assoc, Option.some_or, firstBlock?]
  | case4 s hcut _ =>
    obtain ⟨fuel, rfl⟩ := Nat.exists_eq_add_one.2 (Nat.zero_lt_of_lt hfuel)
    obtain ⟨g, rfl, hnil⟩ := exists_group_cons hpieces Piece.noConfusion hbehind
    obtain ⟨rfl, rfl⟩ := List.append_eq_nil_iff.1 hnil.symm
    rw [scanEntry_unclosed base fuel passed hrest hcut, texts_cons, texts_nil, List.append_nil,
      firstBlock?]
    cases passed.strayClose <;> rfl
  | case5 c s hcomma hopen ih =>
    obtain ⟨g, rfl, htail⟩ := exists_group_cons hpieces Piece.noConfusion hbehind
    have hdrop : dropBytes (pos + c.utf8Size) source = some s := dropBytes_add (s := [c]) hrest
    have hg' : .comma ∉ g := fun hmem => hg (List.mem_cons_of_mem _ hmem)
    have hstop : pos + c.utf8Size + byteLength (texts g) =
        pos + byteLength (texts (.char c :: g)) := Nat.add_assoc _ _ _
    rw [Text.byteLength_cons] at hfuel
    by_cases hclose : c = '}'
    · subst hclose
      obtain ⟨fuel, rfl⟩ := Nat.exists_eq_add_one.2 (Nat.zero_lt_of_lt hfuel)
      have hsize : '}'.utf8Size = 1 := rfl
      rw [hsize] at hdrop hfuel hstop
      have hshorter : byteLength s < fuel := by omega
      rw [scanEntry_close base fuel passed hrest, ih _ hdrop htail hg' hshorter, hstop,
        Option.or_assoc, Option.some_or]
      rfl
    · obtain ⟨fuel, rfl⟩ := Nat.exists_eq_add_of_le' (Nat.le_of_lt (Nat.lt_of_le_of_lt
        (Nat.le_add_right _ _) hfuel))
      have hshorter : byteLength s < fuel := by omega
      have hstray : strayClose? (base + pos) (.char c :: g) =
          strayClose? (base + (pos + c.utf8Size)) g := by
        rw [strayClose?, ← Nat.add_assoc]
        · rfl
        · exact fun heq => hclose (Piece.char.inj heq)
      rw [scanEntry_char base fuel passed hrest ⟨hcomma, hopen, hclose⟩,
        ih _ hdrop htail hg' hshorter, hstop, hstray]
      rfl

/-- A block that is not closed is the last piece. -/
theorem eq_nil_of_unclosed {s body : List Char} {front back : List Piece}
    (h : pieces s = front ++ .unclosed body :: back) : back = [] := by
  fun_induction pieces s generalizing front with
  | case1 => simp at h
  | case2 s ih =>
    cases front with
    | nil => cases h
    | cons p front => exact ih (List.cons.inj h).2
  | case3 s body' rest _ _ ih =>
    cases front with
    | nil => cases h
    | cons p front => exact ih (List.cons.inj h).2
  | case4 s _ _ =>
    cases front with
    | nil => exact (List.cons.inj h).2.symm
    | cons p front => simp at h
  | case5 c s _ _ ih =>
    cases front with
    | nil => cases h
    | cons p front => exact ih (List.cons.inj h).2

/-- The entry between two positions, cut out of its level by what the scan has passed. -/
def entryAt (level : Span) (pos stop : Nat) (passed : Passed) : Except Fault Entry :=
  match passed.block with
  | none => do
    let name ← cut level.text pos stop
    return ⟨⟨name, level.offset + pos⟩, none, ⟨[], level.offset + stop⟩, passed.strayClose⟩
  | some (openAt, some close) => do
    let body ← cut level.text (openAt + 1) close
    let name ← cut level.text pos openAt
    let trailing ← cut level.text (close + 1) stop
    return ⟨⟨name, level.offset + pos⟩, some ⟨level.offset + openAt, body, true⟩,
      ⟨trailing, level.offset + (close + 1)⟩, passed.strayClose⟩
  | some (openAt, none) => do
    -- The open block ends where the text does, and nothing is behind it.
    let body ← cut level.text (openAt + 1) stop
    let name ← cut level.text pos openAt
    let trailing ← cut level.text stop stop
    return ⟨⟨name, level.offset + pos⟩, some ⟨level.offset + openAt, body, false⟩,
      ⟨trailing, level.offset + stop⟩, passed.strayClose⟩

/-- The next entry from a position on, and the position behind it. There is none at the end. -/
def nextEntry (level : Span) (pos : Nat) : Except Fault (Option (Entry × Nat)) := do
  let length := (bytes level.text).length
  if length ≤ pos then
    return none
  let (stop, passed) ← scanEntry level.text level.offset (length + 1) pos {}
  let e ← entryAt level pos stop passed
  -- One more byte for the comma, unless the text ends here.
  return some (e, if stop < length then stop + 1 else stop)

theorem firstBlock?_chars (pos : Nat) (s : List Char) (ps : List Piece) :
    firstBlock? pos (s.map .char ++ ps) = firstBlock? (pos + byteLength s) ps := by
  induction s generalizing pos with
  | nil => rfl
  | cons c s ih => exact (ih (pos + c.utf8Size)).trans (by rw [Text.byteLength_cons, Nat.add_assoc])

/-- The parts of an entry that is made of pieces are where the scan has passed them. -/
theorem entryAt_eq {level : Span} {pos : Nat} {g : List Piece} {rest : List Char}
    (hg : .comma ∉ g) (hlast : ∀ front body back, g = front ++ .unclosed body :: back → back = [])
    (h : dropBytes pos level.text = some (texts g ++ rest)) :
    entryAt level pos (pos + byteLength (texts g))
        ⟨firstBlock? pos g, strayClose? (level.offset + pos) g⟩ =
      .ok (Entry.ofPieces (level.offset + pos) g) := by
  obtain ⟨s, qs, rfl, hqs⟩ := exists_eq_map_char_append g
  cases qs with
  | nil =>
    rw [List.append_nil] at h ⊢
    rw [texts_map_char] at h ⊢
    have hfirst : firstBlock? pos (s.map .char) = none := by
      rw [← List.append_nil (s.map _), firstBlock?_chars]
      rfl
    rw [hfirst, ofPieces_chars, entryAt, cut_eq h rfl, Nat.add_assoc]
    rfl
  | cons p qs =>
    rw [texts_append, texts_map_char, texts_cons, Text.byteLength_append, Text.byteLength_append,
      ← Nat.add_assoc, ← Nat.add_assoc]
    rw [texts_append, texts_map_char, texts_cons, List.append_assoc, List.append_assoc] at h
    have hname := cut_eq h rfl
    have hopen := dropBytes_add h
    have hbehind := dropBytes_add hopen
    rw [firstBlock?_chars, ofPieces_chars_cons _ _ (hqs p rfl)]
    cases p with
    | comma => exact absurd (List.mem_append_right _ List.mem_cons_self) hg
    | char c => cases hqs _ rfl
    | block body =>
      have hbody : dropBytes (pos + byteLength s + 1) level.text =
          some (body ++ ('}' :: (texts qs ++ rest))) := by
        refine dropBytes_add (s := ['{']) (hopen.trans ?_)
        simp [Piece.text]
      rw [byteLength_block, ← Nat.add_assoc, ← Nat.add_assoc] at hbehind ⊢
      rw [firstBlock?, entryAt]
      dsimp only
      rw [cut_eq hbody rfl, hname, cut_eq hbehind rfl]
      simp only [← Nat.add_assoc]
      rfl
    | unclosed body =>
      obtain rfl := hlast _ body qs rfl
      have hbody : dropBytes (pos + byteLength s + 1) level.text = some (body ++ rest) :=
        dropBytes_add (s := ['{']) hopen
      have hstop : byteLength (Piece.unclosed body).text = 1 + byteLength body := rfl
      have hend : pos + byteLength s + 1 + byteLength body + byteLength (texts []) =
          pos + byteLength s + 1 + byteLength body := rfl
      rw [hstop, ← Nat.add_assoc] at hbehind ⊢
      rw [hend, firstBlock?, entryAt]
      dsimp only
      rw [cut_eq hbody rfl, hname, cut_eq hbehind hend]
      simp only [← Nat.add_assoc]
      rfl

/-- The next entry is that of the next group of pieces. -/
theorem nextEntry_eq {level : Span} {pos : Nat} {rest : List Char} {g behind : List Piece}
    (hrest : dropBytes pos level.text = some rest) (hne : rest ≠ [])
    (hpieces : pieces rest = g ++ behind) (hg : .comma ∉ g)
    (hbehind : ∀ p ∈ behind.head?, p = .comma) :
    nextEntry level pos = .ok (some (Entry.ofPieces (level.offset + pos) g,
      if pos + byteLength (texts g) < byteLength level.text then pos + byteLength (texts g) + 1
      else pos + byteLength (texts g))) := by
  have hlength := Text.byteLength_of_dropBytes hrest
  have hpos : ¬byteLength level.text ≤ pos := by
    have hsize := Text.byteLength_pos hne
    omega
  have hscan := scanEntry_eq level.offset {} hrest hpieces hg hbehind
    (show byteLength rest < byteLength level.text + 1 by omega)
  rw [Option.none_or, Option.none_or] at hscan
  have htext := eq_texts_append hpieces
  have hlast : ∀ front body back, g = front ++ .unclosed body :: back → back = [] := by
    rintro front body back rfl
    rw [List.append_assoc] at hpieces
    exact (List.append_eq_nil_iff.1 (eq_nil_of_unclosed hpieces)).1
  unfold nextEntry
  rw [Text.length_bytes]
  dsimp only
  rw [if_neg hpos, hscan]
  exact congrArg (fun e => e >>= fun e => pure (some (e, _))) (entryAt_eq hg hlast (htext ▸ hrest))

theorem nextEntry_end {level : Span} {pos : Nat} (h : dropBytes pos level.text = some []) :
    nextEntry level pos = .ok none := by
  have hlength : (bytes level.text).length ≤ pos := by
    rw [Text.length_bytes, Text.byteLength_of_dropBytes h]
    exact Nat.le_refl pos
  exact if_pos hlength

/-! ## §4 The outermost level -/

/-- The trimmed text and its position, without a pair of braces around all of it. -/
def stripBraces (source : List Char) : Except Fault Span := do
  let leading := byteLength source - byteLength (Text.trimStart source)
  let trimmed := Text.trim source
  let close? ← if trimmed.head? = some '{' then matchingClose trimmed 0 else pure none
  if close? = some (byteLength trimmed - 1) then
    return ⟨← cut trimmed 1 (byteLength trimmed - 1), leading + 1⟩
  return ⟨trimmed, leading⟩

theorem byteLength_sub_trimStart (s : List Char) :
    byteLength s - byteLength (Text.trimStart s) = byteLength (s.takeWhile Text.isBlank) := by
  have happend := Text.byteLength_append (s.takeWhile Text.isBlank) (Text.trimStart s)
  rw [Text.takeWhile_append_trimStart] at happend
  omega

/-- A brace goes around all of a text if the one that closes it is the last byte. -/
theorem map_cutBlock_eq_iff (s : List Char) :
    ((cutBlock s).map fun parts => 0 + 1 + byteLength parts.1) =
        some (byteLength ('{' :: s) - 1) ↔ ∃ body, cutBlock s = some (body, []) := by
  rw [Option.map_eq_some_iff]
  constructor
  · rintro ⟨⟨body, rest⟩, hcut, hlength⟩
    rw [closing_eq_append hcut, Text.byteLength_cons, Text.byteLength_append] at hlength
    cases rest with
    | nil => exact ⟨body, hcut⟩
    | cons c rest =>
      have hopen : '{'.utf8Size = 1 := rfl
      have hclose : '}'.utf8Size = 1 := rfl
      have hsize := c.utf8Size_pos
      rw [Text.byteLength_cons, Text.byteLength_cons] at hlength
      dsimp only at hlength
      omega
  · rintro ⟨body, hcut⟩
    refine ⟨_, hcut, ?_⟩
    rw [closing_eq_append hcut, Text.byteLength_cons, Text.byteLength_append]
    exact (Nat.add_sub_cancel (n := 0 + 1 + byteLength body) (m := 1)).symm

/-- The outermost level is found. -/
theorem stripBraces_eq (source : List Char) : stripBraces source = .ok (outermost source) := by
  have hbind (close? : Option Nat) (f : Option Nat → Except Fault Span) :
      ((.ok close? : Except Fault (Option Nat)) >>= f) = f close? := rfl
  unfold stripBraces outermost
  rw [byteLength_sub_trimStart]
  dsimp only
  generalize Text.trim source = trimmed
  cases trimmed with
  | nil => rfl
  | cons c s =>
    by_cases hc : c = '{'
    · subst hc
      have hclose : matchingClose ('{' :: s) 0 = _ := matchingClose_of_open rfl
      rw [List.head?_cons, if_pos rfl, hclose, hbind]
      by_cases hall : ∃ body, cutBlock s = some (body, [])
      · obtain ⟨body, hcut⟩ := hall
        have htext : '{' :: s = ['{'] ++ (body ++ ['}']) := congrArg _ (closing_eq_append hcut)
        have hbody : cut ('{' :: s) 1 (byteLength ('{' :: s) - 1) = .ok body := by
          have hdrop : dropBytes 1 ('{' :: s) = some (body ++ ['}']) :=
            dropBytes_add (n := 0) (s := ['{']) (congrArg _ htext)
          refine cut_eq hdrop ?_
          rw [htext, Text.byteLength_append, Text.byteLength_append]
          exact (Nat.add_sub_cancel (n := 1 + byteLength body) (m := 1)).symm
        rw [if_pos ((map_cutBlock_eq_iff s).2 ⟨body, hcut⟩), hbody]
        simp only [hcut]
        rfl
      · rw [if_neg (mt (map_cutBlock_eq_iff s).1 hall)]
        split
        · rename_i s' heq
          obtain rfl := (List.cons.inj heq).2
          split
          · rename_i body hcut
            exact absurd ⟨body, hcut⟩ hall
          · rfl
        · rfl
    · have hhead : ¬(c :: s).head? = some '{' := fun h => hc (Option.some.inj h)
      rw [if_neg hhead]
      split
      · rename_i heq
        exact absurd (List.cons.inj heq).1 hc
      · rfl

end ListQuery.Relation
