import ListQuery.Proofs.Json.Rendering
import Mathlib.Data.List.Basic

/-!
# The grammar of JSON texts

The texts of JSON values follow this grammar, in which space is any number of blanks, tabs, line
feeds and carriage returns:

    value   = "null" | "true" | "false" | number | string | array | object
    object  = "{" ( space | member *( "," member ) ) "}"
    member  = space string space ":" element
    array   = "[" ( space | element *( "," element ) ) "]"
    element = space value space
    string  = quote *( plain | "\" letter | "\u" 4digit ) quote
    number  = [ "-" ] whole [ "." digits ] [ ( "e" | "E" ) [ "+" | "-" ] digits ]

Nothing bounds the depth of a value, the size of a number or the code units of a string. So the
grammar is that of the texts that can be passed over, and not that of the values that can be held:
whatever derives from it is passed over up to its last character.

## Main definitions

- `IsNumber`, `IsString`, `IsValue`: the derivations;
- `IsObject`: the texts of objects.

## Main statements

- `IsValue.passedOver`: a value is passed over;
- `IsObject.skip_append`: an object is passed over, whatever stands behind it.
-/

namespace ListQuery.Json

/-! ## §1 Strings -/

def IsHexDigit (c : Char) : Prop :=
  ('0' ≤ c ∧ c ≤ '9') ∨ ('a' ≤ c ∧ c ≤ 'f') ∨ ('A' ≤ c ∧ c ≤ 'F')

/-- The text between the quotes of a string. -/
inductive IsStringBody : List Char → Prop
  | nil : IsStringBody []
  /-- A character that stands for itself: no control character, no quote and no backslash. -/
  | plain {c : Char} {s : List Char} (hc : 0x20 ≤ c.toNat ∧ c ≠ '"' ∧ c ≠ '\\')
      (hs : IsStringBody s) : IsStringBody (c :: s)
  | escape {c : Char} {s : List Char} (hc : c ∈ ['"', '\\', '/', 'b', 'f', 'n', 'r', 't'])
      (hs : IsStringBody s) : IsStringBody ('\\' :: c :: s)
  /-- A code unit, which may be a half of a surrogate pair that stands alone. -/
  | codeUnit {a b c d : Char} {s : List Char}
      (hdigits : IsHexDigit a ∧ IsHexDigit b ∧ IsHexDigit c ∧ IsHexDigit d)
      (hs : IsStringBody s) : IsStringBody ('\\' :: 'u' :: a :: b :: c :: d :: s)

inductive IsString : List Char → Prop
  | quoted {body : List Char} (h : IsStringBody body) : IsString ('"' :: (body ++ ['"']))

/-! ## §2 Numbers -/

/-- One digit or more. -/
def IsDigits (s : List Char) : Prop :=
  s ≠ [] ∧ ∀ c ∈ s, c.isDigit = true

inductive IsFraction : List Char → Prop
  | none : IsFraction []
  | digits {s : List Char} (h : IsDigits s) : IsFraction ('.' :: s)

inductive IsExponent : List Char → Prop
  | none : IsExponent []
  | digits {letter : Char} {sign s : List Char} (hletter : letter = 'e' ∨ letter = 'E')
      (hsign : sign = [] ∨ sign = ['+'] ∨ sign = ['-']) (h : IsDigits s) :
      IsExponent (letter :: (sign ++ s))

inductive IsNumber : List Char → Prop
  /-- No zero stands in front of another digit. -/
  | parts {minus whole fraction exponent : List Char} (hminus : minus = [] ∨ minus = ['-'])
      (hwhole : IsDigits whole) (hzero : whole.head? = some '0' → whole = ['0'])
      (hfraction : IsFraction fraction) (hexponent : IsExponent exponent) :
      IsNumber (minus ++ (whole ++ (fraction ++ exponent)))

/-! ## §3 Values -/

def IsSpaces (s : List Char) : Prop :=
  ∀ c ∈ s, isSpace c = true

/-- A text with what stands in front of it and behind it. -/
structure Element where
  front : List Char
  core : List Char
  back : List Char

def Element.text (e : Element) : List Char :=
  e.front ++ (e.core ++ e.back)

/-- There is only space around the text. -/
def Element.Spaced (e : Element) : Prop :=
  IsSpaces e.front ∧ IsSpaces e.back

/-- The two sides of the colon of a member. -/
structure MemberText where
  key : Element
  value : Element

def MemberText.text (m : MemberText) : List Char :=
  m.key.text ++ ':' :: m.value.text

/-- The text of a value, without space around it. -/
inductive IsValue : List Char → Prop
  | null : IsValue ['n', 'u', 'l', 'l']
  | true : IsValue ['t', 'r', 'u', 'e']
  | false : IsValue ['f', 'a', 'l', 's', 'e']
  | number {s : List Char} (h : IsNumber s) : IsValue s
  | string {s : List Char} (h : IsString s) : IsValue s
  | emptyArray {space : List Char} (h : IsSpaces space) : IsValue ('[' :: (space ++ [']']))
  | array {items : List Element} (hne : items ≠ []) (hspace : ∀ e ∈ items, e.Spaced)
      (hvalue : ∀ e ∈ items, IsValue e.core) :
      IsValue ('[' :: (Text.join [','] (items.map Element.text) ++ [']']))
  | emptyObject {space : List Char} (h : IsSpaces space) : IsValue ('{' :: (space ++ ['}']))
  | object {members : List MemberText} (hne : members ≠ [])
      (hspace : ∀ m ∈ members, m.key.Spaced ∧ m.value.Spaced)
      (hkey : ∀ m ∈ members, IsString m.key.core)
      (hvalue : ∀ m ∈ members, IsValue m.value.core) :
      IsValue ('{' :: (Text.join [','] (members.map MemberText.text) ++ ['}']))

/-- The text of an object, from its first brace to its last one. -/
def IsObject (s : List Char) : Prop :=
  IsValue s ∧ s.head? = some '{'

/-! ## §4 Strings and numbers are read to their end -/

variable {ε : Type} {s rest : List Char}

theorem exists_hexValue? {c : Char} (h : IsHexDigit c) : ∃ n, hexValue? c = some n := by
  unfold hexValue?
  by_cases hdigit : '0' ≤ c ∧ c ≤ '9'
  · exact ⟨_, if_pos hdigit⟩
  rw [if_neg hdigit]
  by_cases hlower : 'a' ≤ c ∧ c ≤ 'f'
  · exact ⟨_, if_pos hlower⟩
  rw [if_neg hlower]
  exact ⟨_, if_pos ((h.resolve_left hdigit).resolve_left hlower)⟩

theorem exists_hexUnit? {a b c d : Char} (ha : IsHexDigit a) (hb : IsHexDigit b)
    (hc : IsHexDigit c) (hd : IsHexDigit d) : ∃ unit, hexUnit? a b c d = some unit := by
  obtain ⟨k, hk⟩ := exists_hexValue? ha
  obtain ⟨l, hl⟩ := exists_hexValue? hb
  obtain ⟨m, hm⟩ := exists_hexValue? hc
  obtain ⟨n, hn⟩ := exists_hexValue? hd
  exact ⟨k * 4096 + l * 256 + m * 16 + n, by simp [hexUnit?, hk, hl, hm, hn]⟩

theorem exists_escapedUnit? {c : Char} (h : c ∈ ['"', '\\', '/', 'b', 'f', 'n', 'r', 't']) :
    c ≠ 'u' ∧ ∃ unit, escapedUnit? c = some unit := by
  simp only [List.mem_cons, List.not_mem_nil, or_false] at h
  rcases h with rfl | rfl | rfl | rfl | rfl | rfl | rfl | rfl
  all_goals exact ⟨by decide, _, rfl⟩

/-- The units of a string end at its quote. -/
theorem IsStringBody.readUnits (h : IsStringBody s) (rest : List Char) :
    ∃ units, Json.readUnits (s ++ '"' :: rest) = some (units, rest) := by
  induction h with
  | nil => exact ⟨[], readUnits_quote rest⟩
  | plain hc hs ih =>
    obtain ⟨units, hunits⟩ := ih
    obtain ⟨hcontrol, hquote, hslash⟩ := hc
    rw [List.cons_append, readUnits_plain hquote hslash (Nat.not_lt.2 hcontrol), hunits]
    exact ⟨_, rfl⟩
  | escape hc hs ih =>
    obtain ⟨units, hunits⟩ := ih
    obtain ⟨hne, unit, hunit⟩ := exists_escapedUnit? hc
    rw [List.cons_append, List.cons_append, readUnits_escape hne hunit, hunits]
    exact ⟨_, rfl⟩
  | codeUnit hdigits hs ih =>
    obtain ⟨units, hunits⟩ := ih
    obtain ⟨ha, hb, hc, hd⟩ := hdigits
    obtain ⟨unit, hunit⟩ := exists_hexUnit? ha hb hc hd
    refine ⟨unit :: units, ?_⟩
    simp only [List.cons_append]
    rw [Json.readUnits, hunit, hunits]

/-- Digits are read up to the first character that is none. -/
theorem spanDigits_of_digits (hs : ∀ c ∈ s, c.isDigit = true)
    (hrest : ∀ c ∈ rest.head?, c.isDigit = false) : spanDigits (s ++ rest) = (s, rest) := by
  unfold spanDigits
  rw [List.takeWhile_append_of_pos hs, List.dropWhile_append_of_pos hs]
  cases rest with
  | nil => simp
  | cons c rest =>
    have hc : ¬c.isDigit = true := by simp [hrest c rfl]
    rw [List.takeWhile_cons_of_neg hc, List.dropWhile_cons_of_neg hc, List.append_nil]

theorem readExponentSign_digits {sign : List Char}
    (hsign : sign = [] ∨ sign = ['+'] ∨ sign = ['-']) (hs : IsDigits s) (rest : List Char) :
    ∃ negative, readExponentSign (sign ++ (s ++ rest)) = (negative, s ++ rest) := by
  obtain ⟨hne, hdigits⟩ := hs
  rcases hsign with rfl | rfl | rfl
  · obtain ⟨c, t, rfl⟩ := List.exists_cons_of_ne_nil hne
    have hc := hdigits c List.mem_cons_self
    refine ⟨false, ?_⟩
    rw [List.nil_append, List.cons_append, readExponentSign]
    · rintro s ⟨⟩
      exact absurd hc (by decide)
    · rintro s ⟨⟩
      exact absurd hc (by decide)
  · exact ⟨false, rfl⟩
  · exact ⟨true, rfl⟩

theorem readMinus_digits {minus : List Char} (hminus : minus = [] ∨ minus = ['-'])
    (hs : IsDigits s) (rest : List Char) :
    ∃ negative, readMinus (minus ++ (s ++ rest)) = (negative, s ++ rest) := by
  obtain ⟨hne, hdigits⟩ := hs
  rcases hminus with rfl | rfl
  · obtain ⟨c, t, rfl⟩ := List.exists_cons_of_ne_nil hne
    have hc := hdigits c List.mem_cons_self
    refine ⟨false, ?_⟩
    rw [List.nil_append, List.cons_append, readMinus]
    rintro s ⟨⟩
    exact absurd hc (by decide)
  · exact ⟨true, rfl⟩

theorem IsExponent.readExponent (h : IsExponent s) (hrest : EndsNumeral rest) :
    ∃ exponent, Json.readExponent (s ++ rest) = some (exponent, rest) := by
  cases h with
  | none =>
    have hnil : Json.readExponent [] = some (Option.none, []) := rfl
    exact ⟨_, readExponent_append hrest hnil⟩
  | @digits letter sign s hletter hsign hs =>
    have hspan := spanDigits_of_digits hs.2 fun c hc => (hrest c hc).1
    obtain ⟨negative, hnegative⟩ := readExponentSign_digits hsign hs rest
    refine ⟨some (negative, s), ?_⟩
    rw [List.cons_append, List.append_assoc, Json.readExponent, if_pos hletter, hnegative]
    dsimp only
    rw [hspan]
    split
    · rename_i heq
      exact absurd (Prod.mk.inj heq).1 hs.1
    · rename_i heq
      obtain ⟨rfl, rfl⟩ := Prod.mk.inj heq
      rfl

/-- An exponent begins with its letter. -/
theorem IsExponent.head?_append (h : IsExponent s) (hrest : EndsNumeral rest) :
    ∀ c ∈ (s ++ rest).head?, c.isDigit = false ∧ c ≠ '.' := by
  cases h with
  | none => exact fun c hc => ⟨(hrest c hc).1, (hrest c hc).2.1⟩
  | digits hletter hsign hs =>
    rintro c ⟨⟩
    rcases hletter with rfl | rfl <;> decide

theorem IsFraction.readFraction (h : IsFraction s)
    (hrest : ∀ c ∈ rest.head?, c.isDigit = false ∧ c ≠ '.') :
    ∃ digits, Json.readFraction (s ++ rest) = some (digits, rest) := by
  cases h with
  | none =>
    refine ⟨[], ?_⟩
    rw [List.nil_append, Json.readFraction]
    rintro t rfl
    exact (hrest '.' rfl).2 rfl
  | @digits s hs =>
    have hspan := spanDigits_of_digits hs.2 fun c hc => (hrest c hc).1
    rw [List.cons_append, Json.readFraction, hspan]
    obtain ⟨c, t, rfl⟩ := List.exists_cons_of_ne_nil hs.1
    exact ⟨_, rfl⟩

theorem IsFraction.head?_append (h : IsFraction s)
    (hrest : ∀ c ∈ rest.head?, c.isDigit = false ∧ c ≠ '.') :
    ∀ c ∈ (s ++ rest).head?, c.isDigit = false := by
  cases h with
  | none => exact fun c hc => (hrest c hc).1
  | digits hs =>
    rintro c ⟨⟩
    decide

/-- A number is read up to a character that cannot go on with it. -/
theorem IsNumber.readNumeral (h : IsNumber s) (hrest : EndsNumeral rest) :
    ∃ numeral, Json.readNumeral (s ++ rest) = some (numeral, rest) := by
  obtain @⟨minus, whole, fraction, exponent, hminus, hwhole, hzero, hfraction, hexponent⟩ := h
  have hbehind := hexponent.head?_append hrest
  obtain ⟨e, he⟩ := hexponent.readExponent hrest
  obtain ⟨f, hf⟩ := hfraction.readFraction hbehind
  have hspan := spanDigits_of_digits hwhole.2 (hfraction.head?_append hbehind)
  have hw : readWhole (whole ++ (fraction ++ (exponent ++ rest))) =
      some (whole, fraction ++ (exponent ++ rest)) :=
    readWhole_eq_some_iff.2 ⟨hspan, hwhole.1, hzero⟩
  obtain ⟨negative, hm⟩ := readMinus_digits hminus hwhole (fraction ++ (exponent ++ rest))
  refine ⟨⟨negative, whole, f, e⟩, ?_⟩
  simp only [Json.readNumeral, List.append_assoc, hm, hw, hf, he, Option.bind_eq_bind,
    Option.bind_some, Option.pure_def]

/-- A number begins with a digit or a minus. -/
theorem IsNumber.exists_cons (h : IsNumber s) : ∃ c t, s = c :: t ∧ BeginsNumeral c := by
  obtain ⟨numeral, hnumeral⟩ := h.readNumeral endsNumeral_nil
  rw [List.append_nil] at hnumeral
  exact exists_cons_of_readNumeral hnumeral

/-! ## §5 Values are passed over -/

theorem skipSpace_append {space : List Char} (h : IsSpaces space) (s : List Char) :
    skipSpace (space ++ s) = skipSpace s :=
  List.dropWhile_append_of_pos h

theorem skipWithin_spaces {space : List Char} (h : IsSpaces space) (depth : Nat) (s : List Char) :
    (skipWithin depth (space ++ s) : Except (Fault ε) (Unit × List Char)) = skipWithin depth s := by
  rw [skipWithin, skipSpace_append h]
  exact (skipWithin.eq_def depth s).symm

theorem skipWithin_quote (depth : Nat) {units : List Nat} (h : readUnits s = some (units, rest)) :
    (skipWithin depth ('"' :: s) : Except (Fault ε) (Unit × List Char)) = .ok ((), rest) := by
  rw [skipWithin, skipSpace_cons rfl]
  show (orMalformed (readUnits s) >>= fun p => Except.ok ((), p.2)) = _
  rw [h]
  rfl

theorem skipWithin_numeral {c : Char} (hc : BeginsNumeral c) (depth : Nat) {numeral : Numeral}
    (h : readNumeral (c :: s) = some (numeral, rest)) :
    (skipWithin depth (c :: s) : Except (Fault ε) (Unit × List Char)) = .ok ((), rest) := by
  rw [skipWithin, skipSpace_cons (isSpace_of_beginsNumeral hc)]
  split
  case h_1 heq => cases heq
  case h_8 heq =>
    obtain ⟨rfl, rfl⟩ := List.cons.inj heq
    show (orMalformed (readNumeral (c :: s)) >>= fun p => Except.ok ((), p.2)) = _
    rw [h]
    rfl
  all_goals
    -- No other value begins with such a character.
    rename_i heq
    obtain ⟨rfl, -⟩ := List.cons.inj heq
    exact absurd hc (by decide)

/-- One member of an object, passed over. -/
def skipMember (depth : Nat) : Reader ε Unit := fun s =>
  match skipSpace s with
  | '"' :: s => do
    let (_, s) ← orMalformed (readUnits s)
    let s ← colon s
    skipWithin depth s
  | _ => malformed

theorem skipWithin_bracket (depth : Nat) (s : List Char) :
    (skipWithin (depth + 1) ('[' :: s) : Except (Fault ε) (Unit × List Char)) =
      separated ']' (fun _ => skipWithin depth) () s := by
  rw [skipWithin, skipSpace_cons rfl]
  rfl

theorem skipWithin_brace (depth : Nat) (s : List Char) :
    (skipWithin (depth + 1) ('{' :: s) : Except (Fault ε) (Unit × List Char)) =
      separated '}' (fun _ => skipMember depth) () s := by
  rw [skipWithin, skipSpace_cons rfl]
  rfl

/-- Entries between commas are passed over if each of them is, up to the space behind it. -/
theorem separated_of_forall {β : Type} {close : Char} {entry : Reader ε Unit}
    {write : β → List Char} {bs : List β} (hclose : IsClose close) (hne : bs ≠ [])
    (hbegin : ∀ b ∈ bs, ∀ s, BeginsOtherThan close (skipSpace (write b ++ s)))
    (hentry : ∀ b ∈ bs, ∀ s, EndsEntry close s →
      ∃ t, skipSpace t = s ∧ entry (write b ++ s) = .ok ((), t)) (rest : List Char) :
    separated close (fun _ => entry) () (Text.join [','] (bs.map write) ++ close :: rest) =
      .ok ((), rest) := by
  have hfold : bs.foldlM (fun _ _ => (.ok () : Except (Fault ε) Unit)) () = .ok () := by
    exact List.foldlM_pure.trans (congrArg _ (List.foldl_fixed bs))
  rw [separated_join_of_spaced (fun _ _ => .ok ()) hclose hne hbegin
    (fun b hb _ s hs => hentry b hb s hs), hfold]
  rfl

theorem length_le_join_of_mem {part : List Char} {parts : List (List Char)} (h : part ∈ parts) :
    part.length ≤ (Text.join [','] parts).length := by
  induction parts with
  | nil => exact absurd h List.not_mem_nil
  | cons p parts ih =>
    cases parts with
    | nil =>
      obtain rfl := List.mem_singleton.1 h
      exact Nat.le_refl _
    | cons q parts =>
      rw [Text.join]
      · rw [List.length_append, List.length_append]
        rcases List.mem_cons.1 h with rfl | h
        · omega
        · have hle := ih h
          omega
      · exact List.cons_ne_nil q parts

/-- A text of a value is passed over at a depth of its length. Only behind a number it matters what
    follows. -/
def PassedOver (ε : Type) (v : List Char) : Prop :=
  ∀ (depth : Nat) (rest : List Char), v.length ≤ depth →
    ((∃ c ∈ v.head?, BeginsNumeral c) → EndsNumeral rest) →
    (skipWithin depth (v ++ rest) : Except (Fault ε) (Unit × List Char)) = .ok ((), rest)

theorem IsSpaces.endsNumeral_append {space : List Char} (h : IsSpaces space)
    (hrest : EndsNumeral rest) : EndsNumeral (space ++ rest) := by
  cases space with
  | nil => exact hrest
  | cons c space =>
    have hc := h c List.mem_cons_self
    simp only [isSpace, Bool.or_eq_true, decide_eq_true_eq] at hc
    refine endsNumeral_cons ?_ (space ++ rest)
    rcases hc with ((rfl | rfl) | rfl) | rfl <;> decide

/-- The space behind an element is left to the loop. -/
theorem exists_skipWithin_element {e : Element} (hspace : e.Spaced) (hpass : PassedOver ε e.core)
    {depth : Nat} (hdepth : e.core.length ≤ depth) {close : Char} (hclose : IsClose close)
    (hs : EndsEntry close s) :
    ∃ t, skipSpace t = s ∧
      (skipWithin depth (e.text ++ s) : Except (Fault ε) (Unit × List Char)) = .ok ((), t) := by
  obtain ⟨hfront, hback⟩ := hspace
  refine ⟨e.back ++ s, ?_, ?_⟩
  · rw [skipSpace_append hback, hs.skipSpace_eq hclose]
  · rw [Element.text, List.append_assoc, List.append_assoc, skipWithin_spaces hfront]
    exact hpass depth _ hdepth fun _ => hback.endsNumeral_append (hs.endsNumeral hclose)

theorem colon_spaces {space : List Char} (h : IsSpaces space) (s : List Char) :
    (colon (space ++ ':' :: s) : Except (Fault ε) (List Char)) = .ok s := by
  unfold colon
  rw [skipSpace_append h, skipSpace_cons rfl]
  rfl

theorem exists_skipMember {m : MemberText} (hkeySpace : m.key.Spaced) (hvalueSpace : m.value.Spaced)
    (hkey : IsString m.key.core) (hpass : PassedOver ε m.value.core) {depth : Nat}
    (hdepth : m.value.core.length ≤ depth) (hs : EndsEntry '}' s) :
    ∃ t, skipSpace t = s ∧
      (skipMember depth (m.text ++ s) : Except (Fault ε) (Unit × List Char)) = .ok ((), t) := by
  obtain ⟨⟨front, core, back⟩, value⟩ := m
  obtain ⟨hfront, hback⟩ := hkeySpace
  obtain @⟨body, hbody⟩ := hkey
  obtain ⟨units, hunits⟩ := hbody.readUnits (back ++ ':' :: (value.text ++ s))
  have htext : (⟨⟨front, '"' :: (body ++ ['"']), back⟩, value⟩ : MemberText).text ++ s =
      front ++ '"' :: (body ++ '"' :: (back ++ ':' :: (value.text ++ s))) := by
    simp [MemberText.text, Element.text]
  obtain ⟨t, hspace, ht⟩ := exists_skipWithin_element hvalueSpace hpass hdepth (Or.inr rfl) hs
  refine ⟨t, hspace, ?_⟩
  rw [htext, skipMember, skipSpace_append hfront, skipSpace_cons rfl]
  simp only [hunits]
  show (colon _ >>= skipWithin depth) = _
  rw [colon_spaces hback]
  exact ht

/-- A value begins with a character that is neither space nor a bracket that closes. -/
theorem IsValue.begins {close : Char} (hclose : IsClose close) (h : IsValue s) :
    BeginsOtherThan close s := by
  cases h with
  | null | true | false | emptyArray | array | emptyObject | object =>
    exact beginsOtherThan_cons rfl (by rcases hclose with rfl | rfl <;> decide) _
  | string h =>
    cases h
    exact beginsOtherThan_cons rfl (by rcases hclose with rfl | rfl <;> decide) _
  | number h =>
    obtain ⟨c, t, rfl, hc⟩ := h.exists_cons
    refine beginsOtherThan_cons (isSpace_of_beginsNumeral hc) ?_ t
    rintro rfl
    rcases hclose with rfl | rfl <;> exact absurd hc (by decide)

theorem passedOver_array {items : List Element} (hne : items ≠ []) (hspace : ∀ e ∈ items, e.Spaced)
    (hvalue : ∀ e ∈ items, IsValue e.core) (hpass : ∀ e ∈ items, PassedOver ε e.core) :
    PassedOver ε ('[' :: (Text.join [','] (items.map Element.text) ++ [']'])) := by
  intro depth rest hdepth _
  obtain ⟨depth, rfl⟩ := Nat.exists_eq_add_one.2 (Nat.lt_of_lt_of_le (Nat.succ_pos _) hdepth)
  rw [List.length_cons, List.length_append] at hdepth
  have hlength : ∀ e ∈ items, e.core.length ≤ depth := by
    intro e he
    have hle := length_le_join_of_mem (List.mem_map_of_mem (f := Element.text) he)
    simp only [Element.text, List.length_append] at hle
    omega
  rw [List.cons_append, List.append_assoc, List.singleton_append, skipWithin_bracket]
  refine separated_of_forall (Or.inl rfl) hne (fun e he s => ?_) (fun e he s hs => ?_) rest
  · obtain ⟨c, t, hcore, hc, hother⟩ := (hvalue e he).begins (Or.inl rfl)
    rw [Element.text, List.append_assoc, skipSpace_append (hspace e he).1, hcore]
    exact ⟨c, _, skipSpace_cons hc _, hc, hother⟩
  · exact exists_skipWithin_element (hspace e he) (hpass e he) (hlength e he) (Or.inl rfl) hs

theorem passedOver_object {members : List MemberText} (hne : members ≠ [])
    (hspace : ∀ m ∈ members, m.key.Spaced ∧ m.value.Spaced)
    (hkey : ∀ m ∈ members, IsString m.key.core)
    (hpass : ∀ m ∈ members, PassedOver ε m.value.core) :
    PassedOver ε ('{' :: (Text.join [','] (members.map MemberText.text) ++ ['}'])) := by
  intro depth rest hdepth _
  obtain ⟨depth, rfl⟩ := Nat.exists_eq_add_one.2 (Nat.lt_of_lt_of_le (Nat.succ_pos _) hdepth)
  rw [List.length_cons, List.length_append] at hdepth
  have hlength : ∀ m ∈ members, m.value.core.length ≤ depth := by
    intro m hm
    have hle := length_le_join_of_mem (List.mem_map_of_mem (f := MemberText.text) hm)
    simp only [MemberText.text, Element.text, List.length_append, List.length_cons] at hle
    omega
  rw [List.cons_append, List.append_assoc, List.singleton_append, skipWithin_brace]
  refine separated_of_forall (Or.inr rfl) hne (fun m hm s => ?_) (fun m hm s hs => ?_) rest
  · obtain ⟨c, t, hcore, hc, hother⟩ := (IsValue.string (hkey m hm)).begins (Or.inr rfl)
    rw [MemberText.text, Element.text, List.append_assoc, List.append_assoc, List.append_assoc,
      skipSpace_append (hspace m hm).1.1, hcore]
    exact ⟨c, _, skipSpace_cons hc _, hc, hother⟩
  · obtain ⟨hkeySpace, hvalueSpace⟩ := hspace m hm
    exact exists_skipMember hkeySpace hvalueSpace (hkey m hm) (hpass m hm) (hlength m hm) hs

/-- A value is passed over. -/
theorem IsValue.passedOver (h : IsValue s) : PassedOver ε s := by
  induction h with
  | null | true | false =>
    intro depth rest _ _
    rw [skipWithin]
    rfl
  | number h =>
    intro depth rest _ hends
    obtain ⟨c, t, rfl, hc⟩ := h.exists_cons
    obtain ⟨numeral, hnumeral⟩ := h.readNumeral (hends ⟨c, rfl, hc⟩)
    exact skipWithin_numeral hc depth hnumeral
  | string h =>
    intro depth rest _ _
    obtain @⟨body, hbody⟩ := h
    obtain ⟨units, hunits⟩ := hbody.readUnits rest
    rw [List.cons_append, List.append_assoc, List.singleton_append]
    exact skipWithin_quote depth hunits
  | emptyArray h =>
    intro depth rest hdepth _
    obtain ⟨depth, rfl⟩ := Nat.exists_eq_add_one.2 (Nat.lt_of_lt_of_le (Nat.succ_pos _) hdepth)
    rw [List.cons_append, List.append_assoc, List.singleton_append, skipWithin_bracket]
    exact separated_space (Or.inl rfl) h () rest
  | array hne hspace hvalue ih => exact passedOver_array hne hspace hvalue ih
  | emptyObject h =>
    intro depth rest hdepth _
    obtain ⟨depth, rfl⟩ := Nat.exists_eq_add_one.2 (Nat.lt_of_lt_of_le (Nat.succ_pos _) hdepth)
    rw [List.cons_append, List.append_assoc, List.singleton_append, skipWithin_brace]
    exact separated_space (Or.inr rfl) h () rest
  | object hne hspace hkey hvalue ih => exact passedOver_object hne hspace hkey ih

/-- An object is passed over, whatever stands behind it. -/
theorem IsObject.skip_append (h : IsObject s) (rest : List Char) :
    (skip (s ++ rest) : Except (Fault ε) (Unit × List Char)) = .ok ((), rest) := by
  obtain ⟨hvalue, hhead⟩ := h
  refine hvalue.passedOver _ rest (by simp) ?_
  rintro ⟨c, hc, hnumeral⟩
  obtain rfl := Option.some.inj (hhead.symm.trans hc)
  exact absurd hnumeral (by decide)

end ListQuery.Json
