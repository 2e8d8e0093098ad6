import ListQuery.Proofs.Json.Derivation
import ListQuery.Proofs.Relation.Balance

/-!
# Where objects end

The search for a closing brace knows no JSON, only braces, quotes and backslashes. Still it finds
the end of every JSON object. The strings of a JSON text end for the search where they end for a
reader, since a backslash in them stands in front of the character that it escapes. Outside of
strings the braces are those of objects, and they come in pairs.

So the texts of the grammar are balanced, by induction on the derivation.

## Main statements

- `balanced_value`: the text of a value is balanced;
- `exists_balanced_of_isObject`: an object is a balanced text in braces;
- `closing_brace_ends_object`: the brace that closes the first one of an object is its last one.
-/

namespace ListQuery.Relation

open Json (Element IsDigits IsExponent IsFraction IsHexDigit IsNumber IsObject IsSpaces IsString
  IsStringBody IsValue MemberText)
open Text (byteLength)

variable {s : List Char}

/-! ## §1 Strings and numbers -/

theorem passes_hexDigit {c : Char} (h : IsHexDigit c) : Passes .inside .inside [c] := by
  refine passes_inside ⟨?_, ?_⟩
  all_goals
    rintro rfl
    revert h
    unfold IsHexDigit
    decide

/-- The text between the quotes of a string does not lead out of it. -/
theorem passes_stringBody (h : IsStringBody s) : Passes .inside .inside s := by
  induction h with
  | nil => exact passes_nil _
  | plain hc _ ih => exact (passes_inside hc.2).append ih
  | escape _ _ ih => exact (passes_escape _).append ih
  | codeUnit hdigits _ ih =>
    obtain ⟨ha, hb, hc, hd⟩ := hdigits
    have hab := (passes_hexDigit ha).append (passes_hexDigit hb)
    have hcd := (passes_hexDigit hc).append (passes_hexDigit hd)
    exact (passes_escape 'u').append (hab.append (hcd.append ih))

theorem balanced_string (h : IsString s) : Balanced s := by
  obtain ⟨hbody⟩ := h
  have hopen : Passes .outside .inside ['"'] := passes_char (q := .outside) (by simp)
  have hclose : Passes .inside .outside ['"'] := passes_char (q := .inside) (by simp)
  exact hopen.append ((passes_stringBody hbody).append hclose)

theorem balanced_digits (h : IsDigits s) : Balanced s := by
  refine balanced_of_plain fun c hc => ?_
  have hdigit := h.2 c hc
  refine ⟨?_, ?_, ?_⟩ <;> rintro rfl <;> exact absurd hdigit (by decide)

theorem balanced_fraction (h : IsFraction s) : Balanced s := by
  cases h with
  | none => exact passes_nil _
  | digits hs => exact (balanced_char (c := '.') (by decide)).append (balanced_digits hs)

theorem balanced_exponent (h : IsExponent s) : Balanced s := by
  cases h with
  | none => exact passes_nil _
  | @digits letter sign s hletter hsign hs =>
    have hplain : IsPlain letter := by rcases hletter with rfl | rfl <;> decide
    refine (balanced_char hplain).append (Balanced.append ?_ (balanced_digits hs))
    rcases hsign with rfl | rfl | rfl
    · exact passes_nil _
    · exact balanced_char (by decide)
    · exact balanced_char (by decide)

theorem balanced_number (h : IsNumber s) : Balanced s := by
  obtain ⟨hminus, hwhole, -, hfraction, hexponent⟩ := h
  refine Balanced.append ?_ ((balanced_digits hwhole).append
    ((balanced_fraction hfraction).append (balanced_exponent hexponent)))
  rcases hminus with rfl | rfl
  · exact passes_nil _
  · exact balanced_char (by decide)

/-! ## §2 Values -/

theorem balanced_spaces (h : IsSpaces s) : Balanced s := by
  refine balanced_of_plain fun c hc => ?_
  have hspace := h c hc
  refine ⟨?_, ?_, ?_⟩ <;> rintro rfl <;> exact absurd hspace (by decide)

theorem balanced_element {e : Element} (hspace : e.Spaced) (h : Balanced e.core) :
    Balanced e.text :=
  (balanced_spaces hspace.1).append (h.append (balanced_spaces hspace.2))

theorem balanced_member {m : MemberText} (hkeySpace : m.key.Spaced) (hvalueSpace : m.value.Spaced)
    (hkey : Balanced m.key.core) (hvalue : Balanced m.value.core) : Balanced m.text := by
  have hcolon : Balanced [':'] := balanced_char (by decide)
  exact (balanced_element hkeySpace hkey).append
    (hcolon.append (balanced_element hvalueSpace hvalue))

theorem balanced_join {parts : List (List Char)} (h : ∀ part ∈ parts, Balanced part) :
    Balanced (Text.join [','] parts) := by
  have hcomma : Balanced [','] := balanced_char (by decide)
  induction parts with
  | nil => exact passes_nil _
  | cons part parts ih =>
    have hpart := h part List.mem_cons_self
    have hrest := ih fun p hp => h p (List.mem_cons_of_mem _ hp)
    cases parts with
    | nil => exact hpart
    | cons next parts =>
      rw [Text.join]
      · exact (hpart.append hcomma).append hrest
      · exact List.cons_ne_nil next parts

theorem balanced_brackets (h : Balanced s) : Balanced ('[' :: (s ++ [']'])) := by
  have hopen : Balanced ['['] := balanced_char (by decide)
  have hclose : Balanced [']'] := balanced_char (by decide)
  exact hopen.append (h.append hclose)

theorem balanced_items {items : List Element} (hspace : ∀ e ∈ items, e.Spaced)
    (h : ∀ e ∈ items, Balanced e.core) : Balanced (Text.join [','] (items.map Element.text)) := by
  refine balanced_join fun part hpart => ?_
  obtain ⟨e, he, rfl⟩ := List.mem_map.1 hpart
  exact balanced_element (hspace e he) (h e he)

theorem balanced_members {members : List MemberText}
    (hspace : ∀ m ∈ members, m.key.Spaced ∧ m.value.Spaced)
    (hkey : ∀ m ∈ members, IsString m.key.core) (h : ∀ m ∈ members, Balanced m.value.core) :
    Balanced (Text.join [','] (members.map MemberText.text)) := by
  refine balanced_join fun part hpart => ?_
  obtain ⟨m, hm, rfl⟩ := List.mem_map.1 hpart
  exact balanced_member (hspace m hm).1 (hspace m hm).2 (balanced_string (hkey m hm)) (h m hm)

/-- The text of a value is balanced. -/
theorem balanced_value (h : IsValue s) : Balanced s := by
  induction h with
  | null | true | false => exact balanced_of_plain (by simp [IsPlain])
  | number h => exact balanced_number h
  | string h => exact balanced_string h
  | emptyArray h => exact balanced_brackets (balanced_spaces h)
  | array _ hspace _ ih => exact balanced_brackets (balanced_items hspace ih)
  | emptyObject h => exact (balanced_spaces h).block
  | object _ hspace hkey _ ih => exact (balanced_members hspace hkey ih).block

/-! ## §3 Objects -/

/-- An object is a balanced text in braces. -/
theorem exists_balanced_of_isObject (h : IsObject s) :
    ∃ body, Balanced body ∧ s = '{' :: (body ++ ['}']) := by
  obtain ⟨hvalue, hhead⟩ := h
  cases hvalue with
  | null | true | false | emptyArray | array => cases hhead
  | string h =>
    cases h
    cases hhead
  | number h =>
    obtain ⟨c, t, rfl, hc⟩ := h.exists_cons
    obtain rfl := Option.some.inj hhead
    exact absurd hc (by decide)
  | emptyObject h => exact ⟨_, balanced_spaces h, rfl⟩
  | object _ hspace hkey hvalue =>
    exact ⟨_, balanced_members hspace hkey fun m hm => balanced_value (hvalue m hm), rfl⟩

/-- From the first byte of a JSON object on, the search for a closing brace ends at the last byte of
    the object, whatever stands in front of the object and behind it. There a reader of JSON texts
    stops as well. -/
theorem closing_brace_ends_object {j : List Char} (h : IsObject j) (before after : List Char) :
    (∃ c, closeAt? (before ++ (j ++ after)) (byteLength before) = some c ∧
      c + 1 = byteLength (before ++ j)) ∧
    (Json.skip (j ++ after) : Except (Json.Fault Empty) (Unit × List Char)) = .ok ((), after) := by
  refine ⟨?_, h.skip_append after⟩
  obtain ⟨body, hbody, rfl⟩ := exists_balanced_of_isObject h
  have htext : '{' :: (body ++ ['}']) ++ after = '{' :: (body ++ '}' :: after) := by simp
  refine ⟨byteLength before + 1 + byteLength body, ?_, ?_⟩
  · rw [htext, closeAt?, Text.dropBytes_append]
    show (cutBlock (body ++ '}' :: after)).map _ = _
    rw [cutBlock_of_balanced hbody]
    rfl
  · rw [Text.byteLength_append, Text.byteLength_cons, Text.byteLength_append, ← Nat.add_assoc,
      ← Nat.add_assoc]
    rfl

/-- An object with quotes, backslashes, braces and commas in its strings, and an object inside. -/
def trickyObject : List Char :=
  "\x7b \"a\\\"\x7d\\\\\" :\n[\"\\u007b\x7b,\", -1.5E+30],\"\":\x7b \x7d\t\x7d".toList

/-- The object ends at its last byte, within a list whose name takes more bytes than characters. -/
theorem closing_brace_ends_object_trickyObject :
    IsObject trickyObject ∧
      closeAt? ("pöst\x7b".toList ++ (trickyObject ++ ", \"\x7d".toList)) 6 = some 49 ∧
      (Json.skip (trickyObject ++ ", \"\x7d".toList) :
        Except (Json.Fault Empty) (Unit × List Char)) = .ok ((), ", \"\x7d".toList) := by
  have hobject : IsObject trickyObject := by decide +kernel
  obtain ⟨⟨c, hc, hend⟩, hskip⟩ :=
    closing_brace_ends_object hobject "pöst\x7b".toList ", \"\x7d".toList
  have hlength : byteLength ("pöst\x7b".toList ++ trickyObject) = 50 := by decide +kernel
  obtain rfl : c = 49 := by omega
  exact ⟨hobject, hc, hskip⟩

end ListQuery.Relation
