import ListQuery.Json.Numeral
import ListQuery.Json.Printer
import ListQuery.Json.Reader
import ListQuery.Proofs.Result
import Mathlib.Data.List.TakeWhile

/-!
# Numbers are read back

The reader of numerals goes as far as it can. In a JSON text a comma, a bracket or the end stands
behind a number, and none of these continues a numeral; so a number that is read back from its own
text alone is read back wherever it stands.

Every integer is read back. A floating point number need not be: its shortest digits round to it, but
the reader rounds twice, once for the digits and once for the power of ten.

## Main definitions

- `Number.Rereads`: the numbers that are read back from their own text;
- `Number.reread?`: what a number is read as from its own text.

## Main statements

- `readNumeral_append`: a numeral is read in the same way whatever ends it;
- `Number.rereads_integer`: integers are read back;
- `Number.number_append`: a number is read in front of other text as it is from its own.
-/

namespace ListQuery.Json

variable {ε : Type} {s rest : List Char}

/-! ## §1 The end of a numeral -/

/-- Whether no numeral goes on into a text. -/
def EndsNumeral (rest : List Char) : Prop :=
  ∀ c ∈ rest.head?, c.isDigit = false ∧ c ≠ '.' ∧ c ≠ 'e' ∧ c ≠ 'E'

theorem endsNumeral_nil : EndsNumeral [] :=
  nofun

theorem endsNumeral_cons {c : Char} (h : c.isDigit = false ∧ c ≠ '.' ∧ c ≠ 'e' ∧ c ≠ 'E')
    (rest : List Char) : EndsNumeral (c :: rest) := by
  rintro d ⟨⟩
  exact h

theorem spanDigits_append (h : EndsNumeral rest) (s : List Char) :
    spanDigits (s ++ rest) = ((spanDigits s).1, (spanDigits s).2 ++ rest) := by
  unfold spanDigits
  induction s with
  | nil =>
    cases rest with
    | nil => rfl
    | cons c rest => simp [(h c rfl).1]
  | cons c s ih =>
    obtain ⟨htake, hdrop⟩ := Prod.mk.inj ih
    cases hc : c.isDigit with
    | false => simp [hc]
    | true => simp [hc, htake, hdrop]

/-- The digits in front make up a whole part, unless there are none or further ones behind a zero. -/
theorem readWhole_eq_some_iff {digits r : List Char} :
    readWhole s = some (digits, r) ↔
      spanDigits s = (digits, r) ∧ digits ≠ [] ∧ (digits.head? = some '0' → digits = ['0']) := by
  unfold readWhole
  constructor
  · intro h
    split at h
    · cases h
    · cases h
    · rename_i parts hnil hzero
      have hparts := Option.some.inj h
      refine ⟨hparts, ?_, fun hhead => ?_⟩
      · rintro rfl
        exact hnil _ hparts
      · obtain ⟨ds, rfl⟩ := List.head?_eq_some_iff.1 hhead
        cases ds with
        | nil => rfl
        | cons d ds => exact absurd hparts (hzero _ _ _)
  · rintro ⟨hparts, hne, hzero⟩
    rw [hparts]
    split
    · rename_i heq
      obtain ⟨⟩ := heq
      exact absurd rfl hne
    · rename_i heq
      obtain ⟨⟩ := heq
      cases hzero rfl
    · rfl

theorem readWhole_append (hrest : EndsNumeral rest) {digits r : List Char}
    (h : readWhole s = some (digits, r)) : readWhole (s ++ rest) = some (digits, r ++ rest) := by
  rw [readWhole_eq_some_iff] at h ⊢
  obtain ⟨hspan, hdigits⟩ := h
  refine ⟨?_, hdigits⟩
  rw [spanDigits_append hrest, hspan]

theorem readFraction_append (hrest : EndsNumeral rest) {digits r : List Char}
    (h : readFraction s = some (digits, r)) :
    readFraction (s ++ rest) = some (digits, r ++ rest) := by
  unfold readFraction at h
  split at h
  · rename_i s
    rw [List.cons_append, readFraction, spanDigits_append hrest]
    generalize spanDigits s = parts at h ⊢
    obtain ⟨ds, t⟩ := parts
    cases ds with
    | nil => cases h
    | cons d ds =>
      obtain ⟨⟩ := h
      rfl
  · rename_i hpoint
    obtain ⟨⟩ := h
    rw [readFraction]
    intro t ht
    -- A point at the front would stand at the front of one of the texts.
    cases s with
    | nil =>
      rw [List.nil_append] at ht
      exact (hrest '.' (by rw [ht]; rfl)).2.1 rfl
    | cons c s => exact hpoint s (by rw [List.cons_append] at ht; rw [(List.cons.inj ht).1])

theorem readExponentSign_append (hs : s ≠ []) (rest : List Char) :
    readExponentSign (s ++ rest) = ((readExponentSign s).1, (readExponentSign s).2 ++ rest) := by
  obtain ⟨c, s, rfl⟩ := List.exists_cons_of_ne_nil hs
  by_cases hplus : c = '+'
  · rw [hplus]
    rfl
  · by_cases hminus : c = '-'
    · rw [hminus]
      rfl
    · rw [List.cons_append, readExponentSign, readExponentSign] <;> simp [hplus, hminus]

theorem readExponent_append (hrest : EndsNumeral rest) {exponent : Option (Bool × List Char)}
    {r : List Char} (h : readExponent s = some (exponent, r)) :
    readExponent (s ++ rest) = some (exponent, r ++ rest) := by
  cases s with
  | nil =>
    obtain ⟨⟩ := h
    cases rest with
    | nil => rfl
    | cons c rest =>
      obtain ⟨-, -, he, hE⟩ := hrest c rfl
      exact if_neg (not_or.2 ⟨he, hE⟩)
  | cons c s =>
    rw [List.cons_append]
    unfold readExponent at h ⊢
    dsimp only at h ⊢
    split at h
    · rename_i hletter
      -- An exponent without digits is none, so there is a sign or a digit behind the letter.
      have hne : s ≠ [] := by
        rintro rfl
        cases h
      rw [if_pos hletter, readExponentSign_append hne, spanDigits_append hrest]
      generalize spanDigits (readExponentSign s).2 = parts at h ⊢
      obtain ⟨ds, t⟩ := parts
      cases ds with
      | nil => cases h
      | cons d ds =>
        obtain ⟨⟩ := h
        rfl
    · rename_i hletter
      obtain ⟨⟩ := h
      rw [if_neg hletter, List.cons_append]

/-- A numeral is read in the same way whatever ends it. -/
theorem readNumeral_append (hrest : EndsNumeral rest) {numeral : Numeral} {r : List Char}
    (h : readNumeral s = some (numeral, r)) :
    readNumeral (s ++ rest) = some (numeral, r ++ rest) := by
  have hminus : s ≠ [] → readMinus (s ++ rest) = ((readMinus s).1, (readMinus s).2 ++ rest) := by
    intro hs
    obtain ⟨c, s, rfl⟩ := List.exists_cons_of_ne_nil hs
    by_cases hc : c = '-'
    · rw [hc]
      rfl
    · rw [List.cons_append, readMinus, readMinus] <;> simp [hc]
  have hne : s ≠ [] := by
    rintro rfl
    cases h
  simp only [readNumeral, Option.bind_eq_bind, Option.bind_eq_some_iff, Prod.exists] at h ⊢
  obtain ⟨whole, s₁, hwhole, fraction, s₂, hfraction, exponent, s₃, hexponent, heq⟩ := h
  obtain ⟨rfl, rfl⟩ := Prod.mk.inj (Option.some.inj heq)
  rw [hminus hne]
  exact ⟨whole, s₁ ++ rest, readWhole_append hrest hwhole, fraction, s₂ ++ rest,
    readFraction_append hrest hfraction, exponent, s₃ ++ rest, readExponent_append hrest hexponent,
    rfl⟩

/-- Whether a numeral can begin with a character. -/
def BeginsNumeral (c : Char) : Prop :=
  c = '-' ∨ c.isDigit = true

instance (c : Char) : Decidable (BeginsNumeral c) :=
  inferInstanceAs (Decidable (_ ∨ _))

theorem exists_cons_of_readNumeral {numeral : Numeral}
    (h : readNumeral s = some (numeral, rest)) : ∃ c t, s = c :: t ∧ BeginsNumeral c := by
  cases s with
  | nil => cases h
  | cons c t =>
    refine ⟨c, t, rfl, ?_⟩
    by_cases hminus : c = '-'
    · exact Or.inl hminus
    · have hrest : readMinus (c :: t) = (false, c :: t) := by
        rw [readMinus]
        rintro _ ⟨⟩
        exact hminus rfl
      simp only [readNumeral, hrest, Option.bind_eq_bind, Option.bind_eq_some_iff,
        Prod.exists] at h
      obtain ⟨whole, _, hwhole, -⟩ := h
      obtain ⟨hspan, hne, -⟩ := readWhole_eq_some_iff.1 hwhole
      -- Without a digit in front there would be no whole part.
      right
      by_contra hdigit
      rw [spanDigits, List.takeWhile_cons_of_neg hdigit] at hspan
      exact hne (Prod.mk.inj hspan).1.symm

/-! ## §2 Integers -/

/-- Only zero is written with a zero in front. -/
theorem eq_zero_of_head?_digitsOf {n : Nat} (h : (digitsOf n).head? = some '0') : n = 0 := by
  induction n using Nat.strong_induction_on with
  | _ n ih =>
  unfold digitsOf at h ih
  rw [Nat.toDigits_eq_if (by decide)] at h
  split at h
  · rename_i hn
    have hdigit : ∀ d < 10, Nat.digitChar d = '0' → d = 0 := by decide
    exact hdigit n hn (Option.some.inj h)
  · rename_i hn
    -- The first digit is that of the number without its last digit.
    obtain ⟨d, ds, hdigits⟩ := List.exists_cons_of_ne_nil (Nat.toDigits_ne_nil (b := 10) (n := n / 10))
    rw [hdigits] at h
    have hzero := ih (n / 10) (by omega) (hdigits ▸ h)
    omega

/-- Integers are written in decimals. -/
theorem ofList_renderInt (n : Int) : String.ofList (renderInt n) = toString n := by
  cases n with
  | ofNat m => rfl
  | negSucc m =>
    have htext : renderInt (Int.negSucc m) = '-' :: Nat.toDigits 10 (m + 1) :=
      if_pos (Int.negSucc_lt_zero m)
    rw [htext]
    exact String.ofList_cons

theorem spanDigits_digitsOf (n : Nat) : spanDigits (digitsOf n) = (digitsOf n, []) := by
  have hdigits : ∀ c ∈ digitsOf n, c.isDigit = true := fun c hc =>
    Nat.isDigit_of_mem_toDigits (by decide) (by decide) hc
  unfold spanDigits
  rw [List.takeWhile_eq_self_iff.2 hdigits, List.dropWhile_eq_nil_iff.2 hdigits]

theorem digitsValue_digitsOf (n : Nat) : digitsValue (digitsOf n) = n := by
  have hvalue : Nat.ofDigitChars 10 (digitsOf n) 0 = n := Nat.ofDigitChars_ten_toDigits
  rwa [Nat.ofDigitChars_eq_foldl] at hvalue

theorem readWhole_digitsOf (n : Nat) : readWhole (digitsOf n) = some (digitsOf n, []) := by
  refine readWhole_eq_some_iff.2 ⟨spanDigits_digitsOf n, Nat.toDigits_ne_nil, fun h => ?_⟩
  rw [eq_zero_of_head?_digitsOf h]
  rfl

theorem readNumeral_renderInt (n : Int) :
    readNumeral (renderInt n) = some (⟨n < 0, digitsOf n.natAbs, [], none⟩, []) := by
  have hminus : readMinus (renderInt n) = (decide (n < 0), digitsOf n.natAbs) := by
    unfold renderInt
    split
    · rename_i hn
      rw [decide_eq_true hn]
      rfl
    · rename_i hn
      rw [decide_eq_false hn, readMinus]
      -- No digit is a minus sign.
      intro t ht
      have hdigit := Nat.isDigit_of_mem_toDigits (b := 10) (n := n.natAbs) (c := '-') (by decide)
        (by decide) (by
          show '-' ∈ digitsOf n.natAbs
          rw [ht]
          exact List.mem_cons_self)
      exact absurd hdigit (by decide)
  simp only [readNumeral, hminus, readWhole_digitsOf, readFraction, readExponent,
    Option.bind_eq_bind, Option.bind_some, Option.pure_def]

theorem number?_integer {n : Int} (h : IntegerRange n) :
    (⟨n < 0, digitsOf n.natAbs, [], none⟩ : Numeral).number? = some (.integer n h) := by
  have hinteger : (⟨n < 0, digitsOf n.natAbs, [], none⟩ : Numeral).integer? = some n := by
    unfold Numeral.integer?
    simp only [and_self, if_true, digitsValue_digitsOf, decide_eq_true_eq]
    split
    · rw [if_neg (by omega)]
      congr 1
      omega
    · congr 1
      omega
  unfold Numeral.number?
  rw [hinteger]
  exact dif_pos h

/-! ## §3 Numbers -/

/-- Whether a number is read back from its own text. -/
def Number.Rereads (n : Number) : Prop :=
  (number (renderNumber n) : Except (Fault Empty) (Number × List Char)).toOption = some (n, [])

instance (n : Number) : Decidable n.Rereads :=
  inferInstanceAs (Decidable (_ = _))

theorem number_of_readNumeral {numeral : Numeral} (h : readNumeral s = some (numeral, rest)) :
    (number s : Except (Fault ε) (Number × List Char)) =
      (orMalformed numeral.number?).map fun n => (n, rest) := by
  unfold number
  rw [h]
  show (orMalformed numeral.number? >>= fun n => Except.ok (n, rest)) = _
  cases numeral.number? <;> rfl

theorem Number.rereads_iff {n : Number} :
    n.Rereads ↔
      ∃ numeral, readNumeral (renderNumber n) = some (numeral, []) ∧ numeral.number? = some n := by
  unfold Rereads
  constructor
  · intro h
    cases hread : readNumeral (renderNumber n) with
    | none =>
      unfold number at h
      rw [hread] at h
      cases h
    | some parts =>
      obtain ⟨numeral, rest⟩ := parts
      rw [number_of_readNumeral hread] at h
      cases hnumber : numeral.number? with
      | none =>
        rw [hnumber] at h
        cases h
      | some m =>
        rw [hnumber] at h
        obtain ⟨⟩ := h
        exact ⟨numeral, rfl, hnumber⟩
  · rintro ⟨numeral, hread, hnumber⟩
    rw [number_of_readNumeral hread, hnumber]
    rfl

theorem Number.rereads_integer {n : Int} (h : IntegerRange n) : (Number.integer n h).Rereads :=
  Number.rereads_iff.2 ⟨_, readNumeral_renderInt n, number?_integer h⟩

/-- The number that is read from the text of a number, if it is a numeral from end to end. -/
def Number.reread? (n : Number) : Option Number :=
  match readNumeral (renderNumber n) with
  | some (numeral, []) => numeral.number?
  | _ => none

theorem Number.reread?_eq_some_iff {n m : Number} :
    n.reread? = some m ↔
      ∃ numeral, readNumeral (renderNumber n) = some (numeral, []) ∧ numeral.number? = some m := by
  unfold reread?
  constructor
  · intro h
    split at h
    · rename_i numeral hread
      exact ⟨numeral, hread, h⟩
    · cases h
  · rintro ⟨numeral, hread, hnumber⟩
    rw [hread]
    exact hnumber

theorem Number.rereads_iff_reread? {n : Number} : n.Rereads ↔ n.reread? = some n :=
  rereads_iff.trans reread?_eq_some_iff.symm

/-- A number is read in front of other text as it is from its own text. -/
theorem Number.number_append {n m : Number} (h : n.reread? = some m) (hrest : EndsNumeral rest) :
    (number (renderNumber n ++ rest) : Except (Fault ε) (Number × List Char)) = .ok (m, rest) := by
  obtain ⟨numeral, hread, hnumber⟩ := reread?_eq_some_iff.1 h
  rw [number_of_readNumeral (readNumeral_append hrest hread), hnumber]
  rfl

/-- A number that is read back from its own text is read back in front of other text. -/
theorem Number.Rereads.number_append {n : Number} (h : n.Rereads) (hrest : EndsNumeral rest) :
    (number (renderNumber n ++ rest) : Except (Fault ε) (Number × List Char)) = .ok (n, rest) :=
  Number.number_append (rereads_iff_reread?.1 h) hrest

end ListQuery.Json
