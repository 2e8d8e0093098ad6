import ListQuery.Json.Literal
import Mathlib.Tactic.SplitIfs

/-!
# String literals are read back

A character is written as one unit, whether it is escaped or not, and the unit is its code point. No
code point is a half of a surrogate pair, so the units of a literal are the characters of the string
that was written.

## Main statements

- `readUnits_escapeChar`: a character inside a literal is one unit;
- `readString_escaped`: a literal is read back, whatever stands behind it.
-/

namespace ListQuery.Json

/-! ## §1 Units -/

private theorem hexValue?_hexDigit : ∀ n < 16, hexValue? (hexDigit n) = some n := by
  decide

theorem readUnits_quote (s : List Char) : readUnits ('"' :: s) = some ([], s) := by
  rw [readUnits]

/-- A letter behind a backslash is one unit, unless it starts a code unit in digits. -/
theorem readUnits_escape {c : Char} (hc : c ≠ 'u') {unit : Nat} (hunit : escapedUnit? c = some unit)
    (s : List Char) :
    readUnits ('\\' :: c :: s) = (readUnits s).map fun p => (unit :: p.1, p.2) := by
  rw [readUnits, hunit]
  · cases readUnits s <;> rfl
  · rintro a b c' d s' rfl
    exact absurd rfl hc

/-- Any other character is the unit of its code point. -/
theorem readUnits_plain {c : Char} (hquote : c ≠ '"') (hslash : c ≠ '\\')
    (hcontrol : ¬c.toNat < 0x20) (s : List Char) :
    readUnits (c :: s) = (readUnits s).map fun p => (c.toNat :: p.1, p.2) := by
  rw [readUnits, if_neg hcontrol]
  · cases readUnits s <;> rfl
  · exact hquote
  · exact fun _ _ _ _ _ heq _ => hslash heq
  · exact fun _ _ heq _ => hslash heq

/-- A control character is written by the last two of four digits. -/
theorem readUnits_control {n : Nat} (hn : n < 0x20) (s : List Char) :
    readUnits ('\\' :: 'u' :: '0' :: '0' :: hexDigit (n / 16) :: hexDigit (n % 16) :: s) =
      (readUnits s).map fun p => (n :: p.1, p.2) := by
  have hunit : hexUnit? '0' '0' (hexDigit (n / 16)) (hexDigit (n % 16)) = some n := by
    have hzero : hexValue? '0' = some 0 := rfl
    have hhigh : hexValue? (hexDigit (n / 16)) = some (n / 16) := hexValue?_hexDigit _ (by omega)
    have hlow : hexValue? (hexDigit (n % 16)) = some (n % 16) := hexValue?_hexDigit _ (by omega)
    simp only [hexUnit?, hzero, hhigh, hlow, Option.bind_eq_bind, Option.bind_some, Option.pure_def,
      Option.some.injEq]
    omega
  rw [readUnits, hunit]
  cases readUnits s <;> rfl

/-- A character inside a literal is one unit, its code point. -/
theorem readUnits_escapeChar (c : Char) (s : List Char) :
    readUnits (escapeChar c ++ s) = (readUnits s).map fun p => (c.toNat :: p.1, p.2) := by
  unfold escapeChar
  split_ifs with hquote hslash hback htab hline hform hreturn hcontrol
  · subst hquote
    exact readUnits_escape (by decide) rfl s
  · subst hslash
    exact readUnits_escape (by decide) rfl s
  · rw [hback]
    exact readUnits_escape (by decide) rfl s
  · rw [htab]
    exact readUnits_escape (by decide) rfl s
  · rw [hline]
    exact readUnits_escape (by decide) rfl s
  · rw [hform]
    exact readUnits_escape (by decide) rfl s
  · rw [hreturn]
    exact readUnits_escape (by decide) rfl s
  · exact readUnits_control hcontrol s
  · exact readUnits_plain hquote hslash hcontrol s

theorem readUnits_escaped (chars rest : List Char) :
    readUnits (chars.flatMap escapeChar ++ '"' :: rest) = some (chars.map Char.toNat, rest) := by
  induction chars with
  | nil => exact readUnits_quote rest
  | cons c chars ih =>
    rw [List.flatMap_cons, List.append_assoc, readUnits_escapeChar, ih]
    rfl

/-! ## §2 Characters -/

/-- No code point is a half of a surrogate pair. -/
theorem not_surrogate (c : Char) :
    isHighSurrogate c.toNat = false ∧ isLowSurrogate c.toNat = false := by
  have hvalid : c.toNat < 0xD800 ∨ 0xDFFF < c.toNat ∧ c.toNat < 0x110000 := c.valid
  constructor
  · simp only [isHighSurrogate, Bool.and_eq_false_iff, decide_eq_false_iff_not]
    omega
  · simp only [isLowSurrogate, Bool.and_eq_false_iff, decide_eq_false_iff_not]
    omega

theorem joinSurrogates_map_toNat (chars : List Char) :
    joinSurrogates (chars.map Char.toNat) = some chars := by
  induction chars with
  | nil => rfl
  | cons c chars ih =>
    obtain ⟨hhigh, hlow⟩ := not_surrogate c
    cases chars with
    | nil =>
      rw [List.map_cons, List.map_nil, joinSurrogates, hhigh, hlow, Char.ofNat_toNat]
      rfl
    | cons d chars =>
      rw [List.map_cons] at ih
      rw [List.map_cons, List.map_cons, joinSurrogates, hhigh, hlow, ih, Char.ofNat_toNat]
      rfl

/-! ## §3 Literals -/

theorem literal_append (s : String) (rest : List Char) :
    literal s ++ rest = '"' :: (s.toList.flatMap escapeChar ++ '"' :: rest) := by
  simp [literal]

/-- A literal is read back behind its opening quote, whatever stands behind it. -/
theorem readString_escaped (s : String) (rest : List Char) :
    readString (s.toList.flatMap escapeChar ++ '"' :: rest) = some (s, rest) := by
  unfold readString
  simp only [readUnits_escaped, joinSurrogates_map_toNat, String.ofList_toList]

end ListQuery.Json
