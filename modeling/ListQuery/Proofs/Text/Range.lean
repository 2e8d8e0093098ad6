import ListQuery.Text.Bytes

/-!
# Parts of a text by their byte positions

A byte position is a boundary between characters if and only if some of the text ends there
(`dropBytes_eq_some_iff`), and a range of positions has a text if and only if both ends are
boundaries, in this order (`slice_eq_some_iff`).

The bytes themselves are those of the UTF-8 form. A byte below `0x80` is a character by itself, so
that such a byte stands at a boundary (`getElem?_bytes_eq_some_iff`).

## Main definitions

- `slice`: the text in a range;
- `bytes`: the UTF-8 form of a text.
-/

namespace ListQuery.Text

/-! ## §1 The rest of a text -/

theorem byteLength_pos {s : List Char} (h : s ≠ []) : 0 < byteLength s := by
  obtain ⟨c, s, rfl⟩ := List.exists_cons_of_ne_nil h
  exact Nat.add_pos_left c.utf8Size_pos _

/-- The rest of a text behind a byte position is what stands behind so many bytes of it. -/
theorem dropBytes_eq_some_iff {n : Nat} {source rest : List Char} :
    dropBytes n source = some rest ↔ ∃ before, source = before ++ rest ∧ byteLength before = n := by
  constructor
  · intro h
    induction source generalizing n with
    | nil =>
      cases n with
      | zero => exact ⟨[], Option.some.inj h, rfl⟩
      | succ n => cases h
    | cons c source ih =>
      cases n with
      | zero => exact ⟨[], Option.some.inj h, rfl⟩
      | succ n =>
        rw [dropBytes] at h
        split at h
        · rename_i hle
          obtain ⟨before, rfl, hlength⟩ := ih h
          exact ⟨c :: before, rfl, by rw [byteLength_cons]; omega⟩
        · cases h
  · rintro ⟨before, rfl, rfl⟩
    exact dropBytes_append before rest

/-- Behind a part of the text comes what stands behind it. -/
theorem dropBytes_add {n : Nat} {source s rest : List Char}
    (h : dropBytes n source = some (s ++ rest)) :
    dropBytes (n + byteLength s) source = some rest := by
  obtain ⟨before, rfl, rfl⟩ := dropBytes_eq_some_iff.1 h
  exact dropBytes_eq_some_iff.2 ⟨before ++ s, by simp, byteLength_append before s⟩

theorem byteLength_of_dropBytes {n : Nat} {source rest : List Char}
    (h : dropBytes n source = some rest) : byteLength source = n + byteLength rest := by
  obtain ⟨before, rfl, rfl⟩ := dropBytes_eq_some_iff.1 h
  exact byteLength_append before rest

/-- Behind the first character of a text, the rest of it is a rest of what follows. -/
theorem dropBytes_cons (c : Char) (source : List Char) (n : Nat) :
    dropBytes (c.utf8Size + n) (c :: source) = dropBytes n source := by
  obtain ⟨m, hm⟩ : ∃ m, c.utf8Size + n = m + 1 :=
    ⟨c.utf8Size + n - 1, by have := c.utf8Size_pos; omega⟩
  have hle : c.utf8Size ≤ m + 1 := by omega
  have hsub : m + 1 - c.utf8Size = n := by omega
  rw [hm, dropBytes, if_pos hle, hsub]

/-! ## §2 Ranges -/

/-- The front of a text that takes `n` bytes; `none` inside a character or past the end. -/
def takeBytes : Nat → List Char → Option (List Char)
  | 0, _ => some []
  | _ + 1, [] => none
  | n + 1, c :: s =>
    if c.utf8Size ≤ n + 1 then (takeBytes (n + 1 - c.utf8Size) s).map (c :: ·) else none
  termination_by structural _ s => s

/-- The text between two byte positions; `none` if they are no range of the text. -/
def slice (source : List Char) (start stop : Nat) : Option (List Char) :=
  if start ≤ stop then (dropBytes start source).bind (takeBytes (stop - start)) else none

theorem takeBytes_eq_some_iff {n : Nat} {source s : List Char} :
    takeBytes n source = some s ↔ s <+: source ∧ byteLength s = n := by
  induction source generalizing n s with
  | nil =>
    rw [List.prefix_nil]
    constructor
    · intro h
      cases n with
      | zero => exact Option.some.inj h ▸ ⟨rfl, rfl⟩
      | succ n => cases h
    · rintro ⟨rfl, rfl⟩
      rfl
  | cons c source ih =>
    constructor
    · intro h
      cases n with
      | zero => exact Option.some.inj h ▸ ⟨List.nil_prefix, rfl⟩
      | succ n =>
        rw [takeBytes] at h
        split at h
        · rename_i hle
          obtain ⟨t, ht, rfl⟩ := Option.map_eq_some_iff.1 h
          obtain ⟨hfront, hlength⟩ := ih.1 ht
          exact ⟨List.cons_prefix_cons.2 ⟨rfl, hfront⟩, by rw [byteLength_cons]; omega⟩
        · cases h
    · rintro ⟨hfront, rfl⟩
      cases s with
      | nil => rfl
      | cons d s =>
        obtain ⟨rfl, htail⟩ := List.cons_prefix_cons.1 hfront
        obtain ⟨n, hn⟩ : ∃ n, d.utf8Size + byteLength s = n + 1 :=
          ⟨d.utf8Size + byteLength s - 1, by have := d.utf8Size_pos; omega⟩
        have hsub : n + 1 - d.utf8Size = byteLength s := by omega
        rw [byteLength_cons, hn, takeBytes, if_pos (by omega), hsub, ih.2 ⟨htail, rfl⟩]
        rfl

/-- A range has a text if and only if that text stands between its ends. In particular both ends
    are boundaries, the first one is not behind the second, and neither is past the end. -/
theorem slice_eq_some_iff {source s : List Char} {start stop : Nat} :
    slice source start stop = some s ↔
      ∃ before rest, source = before ++ s ++ rest ∧ byteLength before = start ∧
        start + byteLength s = stop := by
  unfold slice
  constructor
  · intro h
    split at h
    · rename_i hle
      obtain ⟨behind, hdrop, htake⟩ := Option.bind_eq_some_iff.1 h
      obtain ⟨before, rfl, hbefore⟩ := dropBytes_eq_some_iff.1 hdrop
      obtain ⟨⟨rest, rfl⟩, hlength⟩ := takeBytes_eq_some_iff.1 htake
      exact ⟨before, rest, by simp, hbefore, by omega⟩
    · cases h
  · rintro ⟨before, rest, rfl, rfl, rfl⟩
    have hdrop := dropBytes_append before (s ++ rest)
    rw [if_pos (Nat.le_add_right _ _), List.append_assoc, hdrop, Option.bind_some,
      Nat.add_sub_cancel_left]
    exact takeBytes_eq_some_iff.2 ⟨List.prefix_append s rest, rfl⟩

/-- A part of the text has a range. -/
theorem slice_of_dropBytes {source s rest : List Char} {start stop : Nat}
    (h : dropBytes start source = some (s ++ rest)) (hstop : start + byteLength s = stop) :
    slice source start stop = some s := by
  obtain ⟨before, rfl, hbefore⟩ := dropBytes_eq_some_iff.1 h
  exact slice_eq_some_iff.2 ⟨before, rest, by simp, hbefore, hstop⟩

/-! ## §3 Bytes -/

/-- The UTF-8 form of a text. -/
def bytes (s : List Char) : List UInt8 :=
  s.flatMap String.utf8EncodeChar

theorem bytes_cons (c : Char) (s : List Char) :
    bytes (c :: s) = String.utf8EncodeChar c ++ bytes s := rfl

theorem bytes_append (s t : List Char) : bytes (s ++ t) = bytes s ++ bytes t :=
  List.flatMap_append

theorem length_bytes (s : List Char) : (bytes s).length = byteLength s := by
  induction s with
  | nil => rfl
  | cons c s ih => rw [bytes_cons, List.length_append, String.length_utf8EncodeChar, ih]; rfl

theorem bytes_of_dropBytes {n : Nat} {source rest : List Char}
    (h : dropBytes n source = some rest) : (bytes source).drop n = bytes rest := by
  obtain ⟨before, rfl, rfl⟩ := dropBytes_eq_some_iff.1 h
  rw [bytes_append, ← length_bytes, List.drop_left]

/-- A character below `0x80` is a byte. -/
theorem utf8EncodeChar_ascii {c : Char} (h : c.toNat < 0x80) :
    String.utf8EncodeChar c = [c.toUInt8] := by
  have hle : c.val.toNat ≤ 0x7f := Nat.lt_succ_iff.1 h
  unfold String.utf8EncodeChar
  dsimp only
  rw [if_pos hle]
  rfl

/-- Every byte of another character has its highest bit set. -/
theorem le_of_mem_utf8EncodeChar {c : Char} (h : 0x80 ≤ c.toNat) {b : UInt8}
    (hb : b ∈ String.utf8EncodeChar c) : 0x80 ≤ b.toNat := by
  have hval : c.val.toNat = c.toNat := rfl
  unfold String.utf8EncodeChar at hb
  dsimp only at hb
  rw [hval] at hb
  split at hb
  · omega
  all_goals try split at hb
  all_goals try split at hb
  all_goals
    simp only [List.mem_cons, List.not_mem_nil, or_false] at hb
  · rcases hb with rfl | rfl <;> rw [UInt8.toNat_ofNat'] <;> omega
  · rcases hb with rfl | rfl | rfl <;> rw [UInt8.toNat_ofNat'] <;> omega
  · rcases hb with rfl | rfl | rfl | rfl <;> rw [UInt8.toNat_ofNat'] <;> omega

theorem toNat_toUInt8 {c : Char} (h : c.toNat < 0x80) : c.toUInt8.toNat = c.toNat := by
  show c.val.toNat % 2 ^ 8 = c.val.toNat
  have hval : c.val.toNat < 0x80 := h
  omega

/-- A character below `0x80` is told apart by its byte from all other characters. -/
theorem toUInt8_mem_utf8EncodeChar_iff {c d : Char} (hd : d.toNat < 0x80) :
    d.toUInt8 ∈ String.utf8EncodeChar c ↔ c = d := by
  constructor
  · intro hmem
    by_cases hc : c.toNat < 0x80
    · rw [utf8EncodeChar_ascii hc, List.mem_singleton] at hmem
      have hnat := congrArg UInt8.toNat hmem
      rw [toNat_toUInt8 hd, toNat_toUInt8 hc] at hnat
      exact Char.toNat_inj.1 hnat.symm
    · have hle := le_of_mem_utf8EncodeChar (Nat.le_of_not_lt hc) hmem
      rw [toNat_toUInt8 hd] at hle
      exact absurd hd (Nat.not_lt.2 hle)
  · rintro rfl
    rw [utf8EncodeChar_ascii hd]
    exact List.mem_singleton_self _

theorem eq_toUInt8_iff {c d : Char} (hd : d.toNat < 0x80) {b : UInt8}
    (hb : b ∈ String.utf8EncodeChar c) : b = d.toUInt8 ↔ c = d := by
  constructor
  · rintro rfl
    exact (toUInt8_mem_utf8EncodeChar_iff hd).1 hb
  · rintro rfl
    rw [utf8EncodeChar_ascii hd] at hb
    exact List.mem_singleton.1 hb

/-- The byte of a character below `0x80` stands at a boundary, in front of what follows the
    character. -/
theorem getElem?_bytes_eq_toUInt8_iff {d : Char} (hd : d.toNat < 0x80) {n : Nat}
    {source : List Char} :
    (bytes source)[n]? = some d.toUInt8 ↔ ∃ rest, dropBytes n source = some (d :: rest) := by
  constructor
  · intro h
    induction source generalizing n with
    | nil => cases h
    | cons c source ih =>
      rw [bytes_cons] at h
      by_cases hn : n < c.utf8Size
      · rw [List.getElem?_append_left (by rwa [String.length_utf8EncodeChar])] at h
        obtain rfl := (toUInt8_mem_utf8EncodeChar_iff hd).1 (List.mem_of_getElem? h)
        -- The character takes one byte, so the position is in front of it.
        rw [← String.length_utf8EncodeChar, utf8EncodeChar_ascii hd] at hn
        obtain rfl := Nat.lt_one_iff.1 hn
        exact ⟨source, rfl⟩
      · obtain ⟨m, rfl⟩ := Nat.exists_eq_add_of_le (Nat.le_of_not_lt hn)
        rw [← String.length_utf8EncodeChar, List.getElem?_append_right (Nat.le_add_right _ _),
          Nat.add_sub_cancel_left] at h
        rw [dropBytes_cons]
        exact ih h
  · rintro ⟨rest, hrest⟩
    have hdrop := bytes_of_dropBytes hrest
    rw [bytes_cons, utf8EncodeChar_ascii hd] at hdrop
    rw [← Nat.add_zero n, ← List.getElem?_drop, hdrop]
    rfl

/-- The bytes at a boundary are those of the character behind it. -/
theorem exists_getElem?_bytes {n : Nat} {source s : List Char} {c : Char}
    (h : dropBytes n source = some (c :: s)) {i : Nat} (hi : i < c.utf8Size) :
    ∃ b ∈ String.utf8EncodeChar c, (bytes source)[n + i]? = some b := by
  rw [← String.length_utf8EncodeChar] at hi
  refine ⟨(String.utf8EncodeChar c)[i], List.getElem_mem hi, ?_⟩
  rw [← List.getElem?_drop, bytes_of_dropBytes h, bytes_cons, List.getElem?_append_left hi,
    List.getElem?_eq_getElem hi]

end ListQuery.Text
