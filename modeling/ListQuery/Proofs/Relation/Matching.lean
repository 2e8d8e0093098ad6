import ListQuery.Proofs.Relation.ByteScan
import Mathlib.Order.Bounds.Basic

/-!
# Where braces are closed

Outside of strings, opening and closing braces are counted. The brace that closes another one is
the first position at which, from that one on, as many have been closed as opened. So it is decided
by the bytes between the two alone, and a brace between them is closed between them too: with fewer
blocks open, the count is even earlier.

## Main definitions

- `unquoted`: the bytes outside of strings;
- `EvenAt`: the positions up to which as many braces are closed as opened.

## Main statements

- `closeIn_eq_ok_iff`: the scan finds the first even position;
- `closeAt?_eq_some_iff`: where a brace is closed;
- `closeAt?_congr`: the bytes that decide it;
- `exists_closeAt?_of_inside`: braces inside of a block.
-/

namespace ListQuery.Relation

open Text (bytes)

/-! ## §1 Bytes outside of strings -/

/-- The bytes that are read outside of strings, from a state on. -/
def unquoted : Quoting → List UInt8 → List UInt8
  | _, [] => []
  | .outside, b :: bs => b :: unquoted (Quoting.outside.nextByte b) bs
  | q, b :: bs => unquoted (q.nextByte b) bs

/-- As many blocks are closed as were open before and are opened. -/
def Evens (q : Quoting) (depth : Nat) (bs : List UInt8) : Prop :=
  (unquoted q bs).count '}'.toUInt8 = depth + (unquoted q bs).count '{'.toUInt8

theorem evens_nil_iff {q : Quoting} {depth : Nat} : Evens q depth [] ↔ depth = 0 := by
  cases q <;> simp [Evens, unquoted, eq_comm]

theorem evens_open_iff {depth : Nat} {bs : List UInt8} :
    Evens .outside depth ('{'.toUInt8 :: bs) ↔ Evens .outside (depth + 1) bs := by
  have hstep : unquoted .outside ('{'.toUInt8 :: bs) = '{'.toUInt8 :: unquoted .outside bs := rfl
  unfold Evens
  rw [hstep, List.count_cons_of_ne (by decide), List.count_cons_self]
  omega

theorem evens_close_iff {depth : Nat} {bs : List UInt8} :
    Evens .outside (depth + 1) ('}'.toUInt8 :: bs) ↔ Evens .outside depth bs := by
  have hstep : unquoted .outside ('}'.toUInt8 :: bs) = '}'.toUInt8 :: unquoted .outside bs := rfl
  unfold Evens
  rw [hstep, List.count_cons_self, List.count_cons_of_ne (by decide)]
  omega

theorem evens_uncounted_iff {q : Quoting} {b : UInt8} (h : Uncounted q b) {depth : Nat}
    {bs : List UInt8} : Evens q depth (b :: bs) ↔ Evens (q.nextByte b) depth bs := by
  cases q with
  | outside =>
    obtain ⟨hopen, hclose⟩ := h rfl
    have hstep : unquoted .outside (b :: bs) = b :: unquoted (Quoting.outside.nextByte b) bs := rfl
    unfold Evens
    rw [hstep, List.count_cons_of_ne hclose, List.count_cons_of_ne hopen]
  | inside => rfl
  | escaped => rfl

/-- What the scan does at one byte. -/
theorem byte_cases (q : Quoting) (b : UInt8) :
    (q = .outside ∧ b = '{'.toUInt8) ∨ (q = .outside ∧ b = '}'.toUInt8) ∨ Uncounted q b := by
  unfold Uncounted
  by_cases hopen : b = '{'.toUInt8
  · by_cases hq : q = .outside
    · exact Or.inl ⟨hq, hopen⟩
    · exact Or.inr (Or.inr fun h => absurd h hq)
  · by_cases hclose : b = '}'.toUInt8
    · by_cases hq : q = .outside
      · exact Or.inr (Or.inl ⟨hq, hclose⟩)
      · exact Or.inr (Or.inr fun h => absurd h hq)
    · exact Or.inr (Or.inr fun _ => ⟨hopen, hclose⟩)

/-! ## §2 The first even position -/

/-- The positions through which bytes that start at `pos` even out so many open blocks. -/
def evenPositions (bs : List UInt8) (pos depth : Nat) (q : Quoting) : Set Nat :=
  {i | pos ≤ i ∧ i < pos + bs.length ∧ Evens q depth (bs.take (i + 1 - pos))}

theorem mem_evenPositions {bs : List UInt8} {pos depth i : Nat} {q : Quoting} :
    i ∈ evenPositions bs pos depth q ↔
      pos ≤ i ∧ i < pos + bs.length ∧ Evens q depth (bs.take (i + 1 - pos)) :=
  Iff.rfl

/-- While blocks stay open, the even positions are those of the other bytes. -/
theorem evenPositions_cons {b : UInt8} {q q' : Quoting} {depth depth' : Nat} (hdepth : 0 < depth')
    (h : ∀ bs, Evens q depth (b :: bs) ↔ Evens q' depth' bs) (bs : List UInt8) (pos : Nat) :
    evenPositions (b :: bs) pos depth q = evenPositions bs (pos + 1) depth' q' := by
  ext i
  rw [mem_evenPositions, mem_evenPositions, List.length_cons]
  rcases Nat.lt_trichotomy i pos with hi | rfl | hi
  · exact iff_of_false (fun hmem => absurd hmem.1 (by omega)) (fun hmem => absurd hmem.1 (by omega))
  · -- With blocks open, one byte does not even them out.
    refine iff_of_false (fun hmem => ?_) (fun hmem => absurd hmem.1 (by omega))
    have heven := hmem.2.2
    rw [Nat.add_sub_cancel_left, List.take_succ_cons, List.take_zero, h, evens_nil_iff] at heven
    omega
  · have hsub : i + 1 - pos = i + 1 - (pos + 1) + 1 := by omega
    have hlength : i < pos + (bs.length + 1) ↔ i < pos + 1 + bs.length := by omega
    rw [hsub, List.take_succ_cons, h, hlength]
    exact and_congr_left fun _ => iff_of_true (Nat.le_of_lt hi) hi

/-- The scan finds the first even position, and nothing else. -/
theorem closeIn_eq_ok_iff {bs : List UInt8} {pos depth : Nat} (hdepth : 0 < depth) {q : Quoting}
    {c : Nat} :
    closeIn bs pos depth q = .ok (some c) ↔ IsLeast (evenPositions bs pos depth q) c := by
  induction bs generalizing pos depth q with
  | nil =>
    refine iff_of_false nofun fun h => ?_
    have hlt : c < pos + 0 := h.1.2.1
    exact absurd h.1.1 (by omega)
  | cons b bs ih =>
    rcases byte_cases q b with ⟨rfl, rfl⟩ | ⟨rfl, rfl⟩ | hb
    · have hstep : closeIn ('{'.toUInt8 :: bs) pos depth .outside =
          closeIn bs (pos + 1) (depth + 1) .outside := rfl
      rw [hstep, ih (Nat.succ_pos depth),
        evenPositions_cons (Nat.succ_pos depth) fun _ => evens_open_iff]
    · match depth with
      | 1 =>
        -- The last open block is closed here.
        have hstep : closeIn ('}'.toUInt8 :: bs) pos 1 .outside = .ok (some pos) := rfl
        have hleast : IsLeast (evenPositions ('}'.toUInt8 :: bs) pos 1 .outside) pos := by
          refine ⟨⟨Nat.le_refl pos, Nat.lt_add_of_pos_right (Nat.succ_pos _), ?_⟩,
            fun i hi => hi.1⟩
          rw [Nat.add_sub_cancel_left, List.take_succ_cons, List.take_zero, evens_close_iff,
            evens_nil_iff]
        rw [hstep]
        refine ⟨fun h => ?_, fun h => congrArg _ (congrArg some (hleast.unique h))⟩
        exact Option.some.inj (Except.ok.inj h) ▸ hleast
      | depth + 2 =>
        have hstep : closeIn ('}'.toUInt8 :: bs) pos (depth + 2) .outside =
            closeIn bs (pos + 1) (depth + 1) .outside := rfl
        rw [hstep, ih (Nat.succ_pos depth),
          evenPositions_cons (Nat.succ_pos depth) fun _ => evens_close_iff]
    · rw [closeIn_uncounted hb, ih hdepth,
        evenPositions_cons hdepth fun _ => evens_uncounted_iff hb]

/-- Bytes that agree up to a position have the same even positions there. -/
theorem mem_evenPositions_congr {bs bs' : List UInt8} {n : Nat} (h : bs.take n = bs'.take n)
    {pos depth i : Nat} {q : Quoting} (hi : i < pos + n) (hmem : i ∈ evenPositions bs pos depth q) :
    i ∈ evenPositions bs' pos depth q := by
  obtain ⟨hle, hlt, heven⟩ := hmem
  have hlength := congrArg List.length h
  rw [List.length_take, List.length_take] at hlength
  have htake : bs.take (i + 1 - pos) = bs'.take (i + 1 - pos) := by
    have hmin : i + 1 - pos = min (i + 1 - pos) n := by omega
    rw [hmin, ← List.take_take, ← List.take_take, h]
  exact ⟨hle, by omega, htake ▸ heven⟩

/-- What closes the open blocks is decided by the bytes up to there. -/
theorem closeIn_congr {bs bs' : List UInt8} {pos depth c : Nat} (hdepth : 0 < depth) {q : Quoting}
    (hclose : closeIn bs pos depth q = .ok (some c))
    (h : bs.take (c + 1 - pos) = bs'.take (c + 1 - pos)) :
    closeIn bs' pos depth q = .ok (some c) := by
  rw [closeIn_eq_ok_iff hdepth] at hclose ⊢
  obtain ⟨hmem, hleast⟩ := hclose
  have hle : pos ≤ c := hmem.1
  refine ⟨mem_evenPositions_congr h (by omega) hmem, fun i hi => ?_⟩
  -- An earlier even position of the other bytes would be one of these as well.
  by_contra hlt
  exact hlt (hleast (mem_evenPositions_congr h.symm (by omega) hi))

/-! ## §3 The closing brace -/

/-- From a position on through another one, outside of strings, as many braces are closed as
    opened. -/
def EvenAt (source : List Char) (openAt i : Nat) : Prop :=
  openAt ≤ i ∧ i < (bytes source).length ∧
    let met := unquoted .outside (((bytes source).drop openAt).take (i + 1 - openAt))
    met.count '}'.toUInt8 = met.count '{'.toUInt8

section OpenBrace

variable {source : List Char} {openAt : Nat} (hopen : (bytes source)[openAt]? = some '{'.toUInt8)

include hopen

theorem drop_bytes_open :
    (bytes source).drop openAt = '{'.toUInt8 :: (bytes source).drop (openAt + 1) := by
  rw [List.drop_eq_getElem?_toList_append, hopen]
  rfl

/-- Behind an opening brace the scan goes on with one block open. -/
theorem closeIn_open_eq :
    closeIn ((bytes source).drop (openAt + 1)) (openAt + 1) 1 .outside =
      .ok (closeAt? source openAt) := by
  rw [← matchingClose_eq, matchingClose, if_pos hopen, drop_bytes_open hopen]
  rfl

theorem evenPositions_open_eq :
    evenPositions ((bytes source).drop (openAt + 1)) (openAt + 1) 1 .outside =
      {i | EvenAt source openAt i} := by
  rw [← evenPositions_cons Nat.one_pos fun _ => evens_open_iff, ← drop_bytes_open hopen]
  obtain ⟨hlt, -⟩ := List.getElem?_eq_some_iff.1 hopen
  ext i
  have hlength : i < openAt + ((bytes source).drop openAt).length ↔ i < (bytes source).length := by
    rw [List.length_drop]
    omega
  rw [mem_evenPositions, hlength, Evens, Nat.zero_add]
  rfl

/-- A brace is closed at the first position where the braces from it on are even. -/
theorem closeAt?_eq_some_iff {c : Nat} :
    closeAt? source openAt = some c ↔ IsLeast {i | EvenAt source openAt i} c := by
  rw [← evenPositions_open_eq hopen, ← closeIn_eq_ok_iff Nat.one_pos, closeIn_open_eq hopen]
  exact (Except.ok.injEq _ _).symm.to_iff

/-- Texts that agree from a brace to the one that closes it close it alike. -/
theorem closeAt?_congr {source' : List Char} {c : Nat} (hclose : closeAt? source openAt = some c)
    (h : ∀ i, openAt ≤ i → i ≤ c → (bytes source')[i]? = (bytes source)[i]?) :
    closeAt? source' openAt = some c := by
  have hclose' : closeIn ((bytes source).drop (openAt + 1)) (openAt + 1) 1 .outside =
      .ok (some c) := hclose ▸ closeIn_open_eq hopen
  have hle : openAt + 1 ≤ c := ((closeIn_eq_ok_iff Nat.one_pos).1 hclose').1.1
  have hopen' : (bytes source')[openAt]? = some '{'.toUInt8 :=
    (h openAt (Nat.le_refl _) (by omega)).trans hopen
  have htake : ((bytes source).drop (openAt + 1)).take (c + 1 - (openAt + 1)) =
      ((bytes source').drop (openAt + 1)).take (c + 1 - (openAt + 1)) := by
    apply List.ext_getElem?
    intro k
    simp only [List.getElem?_take, List.getElem?_drop]
    split
    · exact (h _ (by omega) (by omega)).symm
    · rfl
  have hfound := closeIn_congr Nat.one_pos hclose' htake
  rw [closeIn_open_eq hopen'] at hfound
  exact Except.ok.inj hfound

end OpenBrace

/-! ## §4 Blocks inside of blocks -/

/-- With one block fewer open, the scan ends earlier. -/
theorem exists_closeIn_of_deeper {bs : List UInt8} {pos depth c : Nat} {q : Quoting}
    (h : closeIn bs pos (depth + 2) q = .ok (some c)) :
    ∃ c' < c, closeIn bs pos (depth + 1) q = .ok (some c') := by
  induction bs generalizing pos depth q with
  | nil => cases h
  | cons b bs ih =>
    rcases byte_cases q b with ⟨rfl, rfl⟩ | ⟨rfl, rfl⟩ | hb
    · have hrest : closeIn bs (pos + 1) (depth + 1 + 2) .outside = .ok (some c) := h
      exact ih hrest
    · have hrest : closeIn bs (pos + 1) (depth + 1) .outside = .ok (some c) := h
      cases depth with
      | zero =>
        -- The last block but one is closed here, and the last one only behind it.
        exact ⟨pos, ((closeIn_eq_ok_iff Nat.one_pos).1 hrest).1.1, rfl⟩
      | succ depth => exact ih hrest
    · rw [closeIn_uncounted hb] at h ⊢
      exact ih h

theorem exists_closeIn_of_lt {bs : List UInt8} {pos depth depth' c : Nat} {q : Quoting}
    (hlt : depth < depth') (h : closeIn bs pos (depth' + 1) q = .ok (some c)) :
    ∃ c' < c, closeIn bs pos (depth + 1) q = .ok (some c') := by
  -- Block by block, the scan ends earlier and earlier.
  induction hlt generalizing c with
  | refl => exact exists_closeIn_of_deeper h
  | step _ ih =>
    obtain ⟨c', hc', hclose⟩ := exists_closeIn_of_deeper h
    obtain ⟨c'', hc'', hclose'⟩ := ih hclose
    exact ⟨c'', hc''.trans hc', hclose'⟩

/-- Before the scan ends, some blocks are open, and it goes on from there. -/
theorem exists_closeIn_drop {bs : List UInt8} {pos depth c : Nat} {q : Quoting}
    (h : closeIn bs pos (depth + 1) q = .ok (some c)) {k : Nat} (hk : pos + k ≤ c) :
    ∃ depth', closeIn (bs.drop k) (pos + k) (depth' + 1)
      ((bs.take k).foldl Quoting.nextByte q) = .ok (some c) := by
  -- The scan takes `k` steps, none of which is its last.
  induction k generalizing bs pos depth q with
  | zero => exact ⟨depth, h⟩
  | succ k ih =>
    have hk' : pos + 1 + k ≤ c := by omega
    have hadd : pos + (k + 1) = pos + 1 + k := by omega
    cases bs with
    | nil => cases h
    | cons b bs =>
      rw [List.drop_succ_cons, List.take_succ_cons, List.foldl_cons, hadd]
      rcases byte_cases q b with ⟨rfl, rfl⟩ | ⟨rfl, rfl⟩ | hb
      · have hrest : closeIn bs (pos + 1) (depth + 1 + 1) .outside = .ok (some c) := h
        exact ih hrest hk'
      · cases depth with
        | zero =>
          obtain rfl := Option.some.inj (Except.ok.inj h)
          omega
        | succ depth =>
          have hrest : closeIn bs (pos + 1) (depth + 1) .outside = .ok (some c) := h
          exact ih hrest hk'
      · rw [closeIn_uncounted hb] at h
        exact ih h hk'

/-- Where a position stands with respect to strings, when reading starts at another one. -/
def stateAt (source : List Char) (openAt i : Nat) : Quoting :=
  (((bytes source).drop openAt).take (i - openAt)).foldl Quoting.nextByte .outside

/-- A brace inside of a closed block is closed there, if it stands outside of strings. -/
theorem exists_closeAt?_of_inside {source : List Char} {openAt c i : Nat}
    (hopen : (bytes source)[openAt]? = some '{'.toUInt8) (hclose : closeAt? source openAt = some c)
    (hi : openAt < i) (hic : i < c) (hinner : (bytes source)[i]? = some '{'.toUInt8)
    (hstate : stateAt source openAt i = .outside) :
    ∃ c' < c, closeAt? source i = some c' := by
  obtain ⟨k, rfl⟩ : ∃ k, i = openAt + 1 + k := ⟨i - (openAt + 1), by omega⟩
  have hrun : closeIn ((bytes source).drop (openAt + 1)) (openAt + 1) (0 + 1) .outside =
      .ok (some c) := hclose ▸ closeIn_open_eq hopen
  obtain ⟨depth, hdepth⟩ := exists_closeIn_drop hrun (Nat.le_of_lt hic)
  have hfold : (((bytes source).drop (openAt + 1)).take k).foldl Quoting.nextByte .outside =
      .outside := by
    have hsub : openAt + 1 + k - openAt = k + 1 := by omega
    rwa [stateAt, drop_bytes_open hopen, hsub, List.take_succ_cons, List.foldl_cons] at hstate
  -- At the inner brace one more block is opened, so that more than it is closed at the end.
  rw [hfold, List.drop_drop, drop_bytes_open hinner] at hdepth
  have hdeeper : closeIn ((bytes source).drop (openAt + 1 + k + 1)) (openAt + 1 + k + 1)
      (depth + 1 + 1) .outside = .ok (some c) := hdepth
  obtain ⟨c', hc', hfound⟩ := exists_closeIn_of_lt (Nat.succ_pos depth) hdeeper
  rw [closeIn_open_eq hinner] at hfound
  exact ⟨c', hc', Except.ok.inj hfound⟩

/-- What closes all blocks but one stands in front of what closes them all. -/
theorem exists_closing_of_deeper {depth : Nat} {q : Quoting} {s body rest : List Char}
    (h : closing (depth + 1) q s = some (body, rest)) : ∃ cut, closing depth q body = some cut := by
  have hbytes := closeIn_bytes s 0 (depth + 1) q
  rw [h] at hbytes
  obtain ⟨c, hc, hclose⟩ := exists_closeIn_of_deeper hbytes
  -- The bytes up to there are those of the text in front of the last brace.
  have htake : (bytes s).take (c + 1 - 0) = (bytes body).take (c + 1 - 0) := by
    have hlength : c < (bytes body).length := by
      rw [Text.length_bytes]
      simpa using hc
    rw [closing_eq_append h, Text.bytes_append, List.take_append_of_le_length (by omega)]
  have hfound := closeIn_congr (Nat.succ_pos depth) hclose htake
  rw [closeIn_bytes] at hfound
  obtain ⟨cut, hcut, -⟩ := Option.map_eq_some_iff.1 (Except.ok.inj hfound)
  exact ⟨cut, hcut⟩

end ListQuery.Relation
