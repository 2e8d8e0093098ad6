import ListQuery.Proofs.Json.Grammar
import ListQuery.Proofs.Result

/-!
# Whatever is passed over derives from the grammar

The readers that pass over JSON texts take off nothing but texts of the grammar. So the grammar is
that of the readers, no wider and no narrower, and whether a text is an object can be decided by
reading it.

## Main statements

- `exists_of_readUnits`, `exists_of_readNumeral`: strings and numbers;
- `takesValues`: values;
- `isObject_iff`: the objects are the texts with a brace in front that are passed over as a whole.
-/

namespace ListQuery.Json

variable {ε β : Type} {s rest : List Char}

/-! ## §1 Strings -/

theorem isHexDigit_of_hexValue? {c : Char} {n : Nat} (h : hexValue? c = some n) :
    IsHexDigit c := by
  unfold hexValue? at h
  split at h
  · exact Or.inl ‹_›
  split at h
  · exact Or.inr (Or.inl ‹_›)
  split at h
  · exact Or.inr (Or.inr ‹_›)
  · cases h

theorem isHexDigit_of_hexUnit? {a b c d : Char} {unit : Nat} (h : hexUnit? a b c d = some unit) :
    IsHexDigit a ∧ IsHexDigit b ∧ IsHexDigit c ∧ IsHexDigit d := by
  simp only [hexUnit?, Option.bind_eq_bind, Option.bind_eq_some_iff] at h
  obtain ⟨_, ha, _, hb, _, hc, _, hd, -⟩ := h
  exact ⟨isHexDigit_of_hexValue? ha, isHexDigit_of_hexValue? hb, isHexDigit_of_hexValue? hc,
    isHexDigit_of_hexValue? hd⟩

theorem mem_of_escapedUnit? {c : Char} {unit : Nat} (h : escapedUnit? c = some unit) :
    c ∈ ['"', '\\', '/', 'b', 'f', 'n', 'r', 't'] := by
  unfold escapedUnit? at h
  split at h
  case h_9 => cases h
  all_goals decide

theorem exists_of_readUnits {units : List Nat} (h : readUnits s = some (units, rest)) :
    ∃ body, IsStringBody body ∧ s = body ++ '"' :: rest := by
  fun_induction readUnits s generalizing units with
  | case1 | case4 | case6 | case7 | case9 => cases h
  | case2 s =>
    obtain ⟨-, rfl⟩ := Prod.mk.inj (Option.some.inj h)
    exact ⟨[], .nil, rfl⟩
  | case3 a b c d s unit units rest hunits hunit ih =>
    obtain ⟨-, rfl⟩ := Prod.mk.inj (Option.some.inj h)
    obtain ⟨body, hbody, rfl⟩ := ih hunits
    exact ⟨_, .codeUnit (isHexDigit_of_hexUnit? hunit) hbody, rfl⟩
  | case5 c s _ _ units rest hunits hunit ih =>
    obtain ⟨-, rfl⟩ := Prod.mk.inj (Option.some.inj h)
    obtain ⟨body, hbody, rfl⟩ := ih hunits
    exact ⟨_, .escape (mem_of_escapedUnit? hunit) hbody, rfl⟩
  | case8 c s hquote _ hslash hcontrol units rest hunits ih =>
    obtain ⟨-, rfl⟩ := Prod.mk.inj (Option.some.inj h)
    have hne : c ≠ '\\' := by
      rintro rfl
      -- A backslash has a character behind it, or the string does not end.
      cases s with
      | nil => cases hunits
      | cons d s => exact hslash d s rfl rfl
    obtain ⟨body, hbody, rfl⟩ := ih hunits
    exact ⟨c :: body, .plain ⟨Nat.le_of_not_lt hcontrol, hquote, hne⟩ hbody, rfl⟩

/-! ## §2 Numbers -/

theorem eq_append_of_spanDigits {digits : List Char} (h : spanDigits s = (digits, rest)) :
    s = digits ++ rest ∧ ∀ c ∈ digits, c.isDigit = true := by
  obtain ⟨rfl, rfl⟩ := Prod.mk.inj h
  exact ⟨List.takeWhile_append_dropWhile.symm, fun c hc => List.mem_takeWhile_imp hc⟩

theorem exists_eq_append_readMinus (s : List Char) :
    ∃ minus, (minus = [] ∨ minus = ['-']) ∧ s = minus ++ (readMinus s).2 := by
  unfold readMinus
  split
  · exact ⟨['-'], Or.inr rfl, rfl⟩
  · exact ⟨[], Or.inl rfl, rfl⟩

theorem exists_of_readFraction {digits : List Char} (h : readFraction s = some (digits, rest)) :
    ∃ fraction, IsFraction fraction ∧ s = fraction ++ rest := by
  unfold readFraction at h
  split at h
  · rename_i s
    split at h
    · cases h
    · rename_i hne
      obtain ⟨rfl, hdigits⟩ := eq_append_of_spanDigits (Option.some.inj h)
      refine ⟨'.' :: digits, .digits ⟨?_, hdigits⟩, rfl⟩
      rintro rfl
      exact hne rest (Option.some.inj h)
  · obtain ⟨-, rfl⟩ := Prod.mk.inj (Option.some.inj h)
    exact ⟨[], .none, rfl⟩

theorem exists_of_readExponentSign {negative : Bool}
    (h : readExponentSign s = (negative, rest)) :
    ∃ sign, (sign = [] ∨ sign = ['+'] ∨ sign = ['-']) ∧ s = sign ++ rest := by
  unfold readExponentSign at h
  split at h
  · obtain ⟨-, rfl⟩ := Prod.mk.inj h
    exact ⟨['+'], Or.inr (Or.inl rfl), rfl⟩
  · obtain ⟨-, rfl⟩ := Prod.mk.inj h
    exact ⟨['-'], Or.inr (Or.inr rfl), rfl⟩
  · obtain ⟨-, rfl⟩ := Prod.mk.inj h
    exact ⟨[], Or.inl rfl, rfl⟩

theorem exists_of_readExponent {exponent : Option (Bool × List Char)}
    (h : readExponent s = some (exponent, rest)) : ∃ t, IsExponent t ∧ s = t ++ rest := by
  unfold readExponent at h
  split at h
  · obtain ⟨-, rfl⟩ := Prod.mk.inj (Option.some.inj h)
    exact ⟨[], .none, rfl⟩
  · rename_i c s
    split at h
    · rename_i hletter
      cases hsign : readExponentSign s with
      | mk negative r =>
        rw [hsign] at h
        obtain ⟨sign, hvalid, rfl⟩ := exists_of_readExponentSign hsign
        dsimp only at h
        split at h
        · cases h
        · rename_i digits r' hne hspan
          obtain ⟨-, rfl⟩ := Prod.mk.inj (Option.some.inj h)
          obtain ⟨rfl, hdigits⟩ := eq_append_of_spanDigits hspan
          refine ⟨c :: (sign ++ digits), .digits hletter hvalid ⟨?_, hdigits⟩, by simp⟩
          rintro rfl
          exact hne rfl
    · obtain ⟨-, rfl⟩ := Prod.mk.inj (Option.some.inj h)
      exact ⟨[], .none, rfl⟩

theorem exists_of_readNumeral {numeral : Numeral} (h : readNumeral s = some (numeral, rest)) :
    ∃ t, IsNumber t ∧ s = t ++ rest := by
  simp only [readNumeral, Option.bind_eq_bind, Option.bind_eq_some_iff, Prod.exists] at h
  obtain ⟨digits, _, hwhole, _, _, hfraction, _, _, hexponent, heq⟩ := h
  obtain ⟨-, rfl⟩ := Prod.mk.inj (Option.some.inj heq)
  obtain ⟨hspan, hne, hzero⟩ := readWhole_eq_some_iff.1 hwhole
  obtain ⟨minus, hminus, hs⟩ := exists_eq_append_readMinus s
  obtain ⟨hbehind, hdigits⟩ := eq_append_of_spanDigits hspan
  obtain ⟨fraction, hf, rfl⟩ := exists_of_readFraction hfraction
  obtain ⟨exponent, he, rfl⟩ := exists_of_readExponent hexponent
  refine ⟨minus ++ (digits ++ (fraction ++ exponent)),
    .parts hminus ⟨hne, hdigits⟩ hzero hf he, ?_⟩
  rw [hs, hbehind]
  simp

/-! ## §3 Entries between commas -/

theorem isSpaces_takeWhile (s : List Char) : IsSpaces (s.takeWhile isSpace) :=
  fun _ hc => List.mem_takeWhile_imp hc

/-- The space in front of a text. -/
theorem eq_append_of_skipSpace (h : skipSpace s = rest) :
    ∃ space, IsSpaces space ∧ s = space ++ rest := by
  refine ⟨s.takeWhile isSpace, isSpaces_takeWhile s, ?_⟩
  rw [← h, skipSpace, List.takeWhile_append_dropWhile]

section Entries

variable {close : Char} {entry : Reader ε Unit} {write : β → List Char} {P : β → Prop}

/-- An entry that is read, with the space behind it, is one that is written from something. -/
def TakesWritten (entry : Reader ε Unit) (write : β → List Char) (P : β → Prop) : Prop :=
  ∀ s space rest, entry s = .ok ((), space ++ rest) → IsSpaces space →
    ∃ b, P b ∧ s = write b ++ rest

theorem exists_of_separatedLoop (hentry : TakesWritten entry write P) {fuel : Nat}
    (h : separatedLoop close (fun _ => entry) fuel () s = .ok ((), rest)) :
    ∃ bs : List β, bs ≠ [] ∧ (∀ b ∈ bs, P b) ∧
      s = Text.join [','] (bs.map write) ++ close :: rest := by
  induction fuel generalizing s with
  | zero => cases h
  | succ fuel ih =>
    obtain ⟨⟨⟨⟩, t⟩, hfirst, hnext⟩ := bind_eq_ok.1 h
    dsimp only at hnext
    split at hnext
    · cases hnext
    · rename_i c r hspace
      obtain ⟨space, hspaces, rfl⟩ := eq_append_of_skipSpace hspace
      obtain ⟨b, hb, rfl⟩ := hentry s space (c :: r) hfirst hspaces
      split at hnext
      · rename_i hclose
        obtain ⟨-, rfl⟩ := Prod.mk.inj (Except.ok.inj hnext)
        refine ⟨[b], List.cons_ne_nil b [], ?_, by rw [hclose]; rfl⟩
        exact fun b' hb' => List.mem_singleton.1 hb' ▸ hb
      · split at hnext
        · rename_i hcomma
          obtain ⟨bs, hne, hbs, rfl⟩ := ih hnext
          refine ⟨b :: bs, List.cons_ne_nil b bs, ?_, ?_⟩
          · exact fun b' hb' => (List.mem_cons.1 hb').elim (fun heq => heq ▸ hb) (hbs b')
          · rw [List.map_cons, Text.join, hcomma]
            · simp
            · simpa using hne
        · cases hnext

theorem exists_of_separated (hentry : TakesWritten entry write P)
    (h : separated close (fun _ => entry) () s = .ok ((), rest)) :
    (∃ space, IsSpaces space ∧ s = space ++ close :: rest) ∨
      ∃ bs : List β, bs ≠ [] ∧ (∀ b ∈ bs, P b) ∧
        s = Text.join [','] (bs.map write) ++ close :: rest := by
  unfold separated at h
  split at h
  · cases h
  · rename_i c r hspace
    split at h
    · rename_i hclose
      obtain ⟨-, rfl⟩ := Prod.mk.inj (Except.ok.inj h)
      exact Or.inl (eq_append_of_skipSpace (hclose ▸ hspace))
    · exact Or.inr (exists_of_separatedLoop hentry h)

end Entries

/-! ## §4 Values -/

theorem eq_append_of_word {expected : List Char}
    (h : (word expected s : Except (Fault ε) (List Char)) = .ok rest) : s = expected ++ rest := by
  induction expected generalizing s with
  | nil => exact Except.ok.inj h
  | cons c expected ih =>
    cases s with
    | nil => cases h
    | cons d s =>
      rw [word] at h
      split at h
      · rename_i heq
        rw [heq, ih h]
        rfl
      · cases h

theorem eq_append_of_colon (h : (colon s : Except (Fault ε) (List Char)) = .ok rest) :
    ∃ space, IsSpaces space ∧ s = space ++ ':' :: rest := by
  unfold colon at h
  split at h
  · rename_i r hspace
    exact eq_append_of_skipSpace (Except.ok.inj h ▸ hspace)
  · cases h

theorem orMalformed_eq_ok {o : Option β} {b : β} :
    (orMalformed o : Except (Fault ε) β) = .ok b ↔ o = some b := by
  cases o with
  | none => exact ⟨nofun, nofun⟩
  | some b' => exact ⟨fun h => congrArg _ (Except.ok.inj h), fun h => congrArg _ (Option.some.inj h)⟩

/-- What is passed over at a depth is space and a value. -/
def TakesValues (ε : Type) (depth : Nat) : Prop :=
  ∀ s rest, (skipWithin depth s : Except (Fault ε) (Unit × List Char)) = .ok ((), rest) →
    ∃ space v, IsSpaces space ∧ IsValue v ∧ s = space ++ (v ++ rest)

theorem takesWritten_element {depth : Nat} (h : TakesValues ε depth) :
    TakesWritten (skipWithin depth : Reader ε Unit) Element.text
      fun e => e.Spaced ∧ IsValue e.core := by
  intro s space rest hread hspace
  obtain ⟨front, v, hfront, hv, rfl⟩ := h s (space ++ rest) hread
  exact ⟨⟨front, v, space⟩, ⟨⟨hfront, hspace⟩, hv⟩, by simp [Element.text]⟩

theorem takesWritten_member {depth : Nat} (h : TakesValues ε depth) :
    TakesWritten (skipMember depth : Reader ε Unit) MemberText.text
      fun m => (m.key.Spaced ∧ m.value.Spaced) ∧ IsString m.key.core ∧ IsValue m.value.core := by
  intro s space rest hread hspace
  unfold skipMember at hread
  split at hread
  · rename_i t hquote
    obtain ⟨front, hfront, rfl⟩ := eq_append_of_skipSpace hquote
    obtain ⟨⟨units, u⟩, hunits, hbehind⟩ := bind_eq_ok.1 hread
    obtain ⟨w, hcolon, hinner⟩ := bind_eq_ok.1 hbehind
    obtain ⟨body, hbody, rfl⟩ := exists_of_readUnits (orMalformed_eq_ok.1 hunits)
    obtain ⟨back, hback, rfl⟩ := eq_append_of_colon hcolon
    obtain ⟨e, ⟨hvalueSpace, hvalue⟩, rfl⟩ := takesWritten_element h w space rest hinner hspace
    refine ⟨⟨⟨front, '"' :: (body ++ ['"']), back⟩, e⟩,
      ⟨⟨⟨hfront, hback⟩, hvalueSpace⟩, .quoted hbody, hvalue⟩, ?_⟩
    simp [MemberText.text, Element.text]
  · cases hread

/-- Values of some depth, if those in their arrays and objects are known. -/
theorem takesValues_step {depth : Nat}
    (hinner : ∀ d, depth = d + 1 → TakesValues ε d) : TakesValues ε depth := by
  intro s rest h
  have hword {c : Char} {expected r : List Char} (hv : IsValue (c :: expected))
      (h : (do .ok ((), ← word expected r) : Except (Fault ε) (Unit × List Char)) =
        .ok ((), rest)) :
      ∃ v, IsValue v ∧ c :: r = v ++ rest := by
    obtain ⟨t, ht, heq⟩ := bind_eq_ok.1 h
    obtain ⟨-, rfl⟩ := Prod.mk.inj (Except.ok.inj heq)
    exact ⟨c :: expected, hv, by rw [eq_append_of_word ht]; rfl⟩
  -- The cases are those of the first character behind the space.
  suffices hvalue : ∃ v, IsValue v ∧ skipSpace s = v ++ rest by
    obtain ⟨v, hv, heq⟩ := hvalue
    obtain ⟨space, hspace, hs⟩ := eq_append_of_skipSpace heq
    exact ⟨space, v, hspace, hv, hs⟩
  rw [skipWithin] at h
  split at h
  · cases h
  · rename_i r hspace
    exact hspace ▸ hword .null h
  · rename_i r hspace
    exact hspace ▸ hword .true h
  · rename_i r hspace
    exact hspace ▸ hword .false h
  · rename_i r hspace
    obtain ⟨⟨units, _⟩, hunits, ⟨⟩⟩ := bind_eq_ok.1 h
    obtain ⟨body, hbody, rfl⟩ := exists_of_readUnits (orMalformed_eq_ok.1 hunits)
    exact ⟨'"' :: (body ++ ['"']), .string (.quoted hbody), by rw [hspace]; simp⟩
  · rename_i r hspace
    rw [hspace]
    split at h
    · cases h
    · rename_i d
      rcases exists_of_separated (takesWritten_element (hinner d rfl)) h with
        ⟨space, hspaces, rfl⟩ | ⟨items, hne, hitems, rfl⟩
      · exact ⟨_, .emptyArray hspaces, by simp⟩
      · exact ⟨_, .array hne (fun e he => (hitems e he).1) fun e he => (hitems e he).2, by simp⟩
  · rename_i r hspace
    rw [hspace]
    split at h
    · cases h
    · rename_i d
      rcases exists_of_separated (takesWritten_member (hinner d rfl)) h with
        ⟨space, hspaces, rfl⟩ | ⟨members, hne, hmembers, rfl⟩
      · exact ⟨_, .emptyObject hspaces, by simp⟩
      · exact ⟨_, .object hne (fun m hm => (hmembers m hm).1) (fun m hm => (hmembers m hm).2.1)
          fun m hm => (hmembers m hm).2.2, by simp⟩
  · rename_i c r _ _ _ _ _ _ hspace
    obtain ⟨⟨numeral, _⟩, hnumeral, ⟨⟩⟩ := bind_eq_ok.1 h
    obtain ⟨v, hv, heq⟩ := exists_of_readNumeral (orMalformed_eq_ok.1 hnumeral)
    exact ⟨v, .number hv, hspace.trans heq⟩

theorem takesValues (depth : Nat) : TakesValues ε depth := by
  induction depth with
  | zero => exact takesValues_step fun d hd => absurd hd.symm (Nat.succ_ne_zero d)
  | succ depth ih => exact takesValues_step fun d hd => Nat.succ.inj hd ▸ ih

/-- The objects are the texts with a brace in front that are passed over as a whole. -/
theorem isObject_iff :
    IsObject s ↔ s.head? = some '{' ∧
      (skip s : Except (Fault ε) (Unit × List Char)) = .ok ((), []) := by
  constructor
  · intro h
    have hskip := h.skip_append (ε := ε) []
    rw [List.append_nil] at hskip
    exact ⟨h.2, hskip⟩
  · rintro ⟨hhead, hskip⟩
    obtain ⟨space, v, hspace, hv, rfl⟩ := takesValues s.length s [] hskip
    rw [List.append_nil] at hhead ⊢
    cases space with
    | nil => exact ⟨hv, hhead⟩
    | cons c space =>
      -- A brace is no space.
      obtain rfl := Option.some.inj hhead
      exact absurd (hspace '{' List.mem_cons_self) (by decide)

/-- Whether a text is an object is decided by passing over it. -/
instance (s : List Char) : Decidable (IsObject s) :=
  decidable_of_iff (s.head? = some '{' ∧ (skip (ε := Empty) s).toOption = some ((), []))
    ((and_congr_right fun _ => toOption_eq_some).trans isObject_iff.symm)

end ListQuery.Json
