import ListQuery.Proofs.Relation.Accept
import ListQuery.Proofs.Text.Padding
import ListQuery.Relation.Basic

/-!
# The grammar of relation lists

Relation lists follow this grammar, in which blanks are any characters with the Unicode property
`White_Space`:

    level = [ item [ "," level ] ]
    item  = blanks name blanks [ "{" block "}" blanks ]
    block = level | blanks object blanks [ "," level ]

A level is nothing, or items with commas between them, and one more comma may stand behind the last
item. The predicates below say which relations a text derives, with blocks nested no deeper than a
given number. What the text of an object is, and which request it writes, is a parameter of the
grammar: readings of paths take no objects at all.

An item makes up one entry of its level, whatever stands beside it, provided that the objects in it
are balanced texts.

## Main statements

- `Entry.Gives`, `gives_name`, `gives_block`: the entries of items are sound;
- `IsLevel.balanced`: the texts that derive from the grammar are balanced;
- `IsItem.isEntryText`: an item makes up one entry of its level.
-/

namespace ListQuery.Relation

open Text (byteLength Blanks Padded)

/-! ## §1 Names -/

/-- A name that can stand in a relation list. -/
structure IsName (name : String) : Prop where
  nonempty : name ≠ ""
  /-- The first character is not blank. -/
  first : ∀ c ∈ name.toList.head?, Text.isBlank c = false
  /-- The last character is not blank. -/
  last : ∀ c ∈ name.toList.getLast?, Text.isBlank c = false
  plain : ∀ c ∈ name.toList, c ≠ '{' ∧ c ≠ '}' ∧ c ≠ ',' ∧ c ≠ '"'

-- The quantifiers range over the characters of the name, which are checked one by one.
instance (name : String) : Decidable (IsName name) :=
  decidable_of_iff (name ≠ "" ∧ name.toList.head?.all (!Text.isBlank ·) ∧
      name.toList.getLast?.all (!Text.isBlank ·) ∧
      name.toList.all fun c => c ≠ '{' ∧ c ≠ '}' ∧ c ≠ ',' ∧ c ≠ '"') (by
    simp only [List.all_eq_true, decide_eq_true_eq, Option.all_eq_true, Bool.not_eq_true']
    constructor
    · rintro ⟨hne, hfirst, hlast, hplain⟩
      exact ⟨hne, hfirst, hlast, hplain⟩
    · rintro ⟨hne, hfirst, hlast, hplain⟩
      exact ⟨hne, hfirst, hlast, hplain⟩)

namespace IsName

variable {name : String}

theorem toList_ne_nil (h : IsName name) : name.toList ≠ [] := by
  intro hnil
  exact h.nonempty (String.toList_eq_nil_iff.1 hnil)

theorem balanced (h : IsName name) : Balanced name.toList := by
  apply balanced_of_plain
  intro c hc
  obtain ⟨hopen, hclose, -, hquote⟩ := h.plain c hc
  exact ⟨hquote, hopen, hclose⟩

end IsName

/-! ## §2 Names with blanks around them -/

theorem isPlain_of_isBlank {c : Char} (h : Text.isBlank c = true) : IsPlain c ∧ c ≠ ',' := by
  refine ⟨⟨?_, ?_, ?_⟩, ?_⟩ <;> rintro rfl <;> exact absurd h (by decide)

theorem balanced_of_blanks {s : List Char} (h : Blanks s) : Balanced s :=
  balanced_of_plain fun c hc => (isPlain_of_isBlank (h c hc)).1

theorem Balanced.padded {s t : List Char} (hs : Balanced s) (h : Padded s t) : Balanced t := by
  obtain ⟨u, v, hu, hv, rfl⟩ := h
  exact ((balanced_of_blanks hu).append hs).append (balanced_of_blanks hv)

theorem pieces_blanks_append {s : List Char} (h : Blanks s) (t : List Char) :
    pieces (s ++ t) = s.map .char ++ pieces t := by
  apply pieces_plain_append
  intro c hc
  obtain ⟨⟨-, hopen, -⟩, hcomma⟩ := isPlain_of_isBlank (h c hc)
  exact ⟨hcomma, hopen⟩

theorem pieces_of_blanks {s : List Char} (h : Blanks s) : pieces s = s.map .char := by
  have happend := pieces_blanks_append h []
  rwa [List.append_nil, pieces_nil, List.append_nil] at happend

section Names

variable {name : String} {s : List Char} (hname : IsName name) (h : Padded name.toList s)
include hname h

/-- A name with blanks around it holds no character that means anything to a level. -/
theorem plain_of_mem_padded {c : Char} (hc : c ∈ s) : IsPlain c ∧ c ≠ ',' := by
  rcases h.mem hc with hc | hc
  · obtain ⟨hopen, hclose, hcomma, hquote⟩ := hname.plain c hc
    exact ⟨⟨hquote, hopen, hclose⟩, hcomma⟩
  · exact isPlain_of_isBlank hc

theorem pieces_padded_append (t : List Char) : pieces (s ++ t) = s.map .char ++ pieces t := by
  apply pieces_plain_append
  intro c hc
  obtain ⟨⟨-, hopen, -⟩, hcomma⟩ := plain_of_mem_padded hname h hc
  exact ⟨hcomma, hopen⟩

theorem pieces_padded : pieces s = s.map .char := by
  have happend := pieces_padded_append hname h []
  rwa [List.append_nil, pieces_nil, List.append_nil] at happend

theorem pieces_padded_block {body u : List Char} (hbody : Balanced body) (hu : Blanks u) :
    pieces (s ++ ('{' :: body ++ '}' :: u)) = s.map .char ++ .block body :: u.map .char := by
  rw [pieces_padded_append hname h, pieces_block hbody, pieces_of_blanks hu]

theorem close_notMem_padded : '}' ∉ s := by
  intro hmem
  exact (plain_of_mem_padded hname h hmem).1.2.2 rfl

theorem padded_ne_nil : s ≠ [] :=
  h.ne_nil hname.toList_ne_nil

/-- The blanks are no part of the name. -/
theorem relationName_of_padded {e : Entry} (he : e.name.text = s) :
    e.relationName = name.toList := by
  rw [Entry.relationName_eq_trim (he ▸ close_notMem_padded hname h), he,
    h.trim_eq hname.toList_ne_nil hname.first hname.last]

end Names

/-! ## §3 The entries of items -/

/-- An entry is sound, and it has this name and this block. -/
structure Entry.Gives (e : Entry) (levels : Nat) (name : String) (block : Option Block) :
    Prop where
  sound : e.Sound levels
  relationName : e.relationName = name.toList
  block : e.block = block

/-- Such an entry is accepted under either mode. -/
theorem Policy.accept_of_gives (policy : Policy) {e : Entry} {levels : Nat} {name : String}
    {block : Option Block} (h : e.Gives levels name block) :
    policy.accept levels e = pure (some ⟨name, block⟩) := by
  obtain ⟨hsound, hname, rfl⟩ := h
  rw [policy.accept_of_sound hsound, hname, String.ofList_toList]

section Entries

variable {name : String} {s : List Char} (hname : IsName name) (h : Padded name.toList s)
include hname h

/-- The entry of a name. -/
theorem gives_name (offset levels : Nat) :
    (Entry.ofPieces offset (pieces s)).Gives levels name none := by
  have hstray : strayClose? offset (s.map .char) = none := by
    rw [strayClose?_eq_none_iff]
    simpa using close_notMem_padded hname h
  rw [pieces_padded hname h, ofPieces_chars, hstray]
  have hrelation : Entry.relationName ⟨⟨s, offset⟩, none, ⟨[], offset + byteLength s⟩, none⟩ =
      name.toList := relationName_of_padded hname h rfl
  exact ⟨⟨rfl, hrelation ▸ hname.toList_ne_nil, nofun⟩, hrelation, rfl⟩

/-- The entry of a name with a block. -/
theorem gives_block {body u : List Char} (hbody : Balanced body) (hu : Blanks u)
    (offset levels : Nat) :
    (Entry.ofPieces offset (pieces (s ++ ('{' :: body ++ '}' :: u)))).Gives (levels + 1) name
      (some ⟨offset + byteLength s, body, true⟩) := by
  have hstray : strayClose? offset (s.map .char ++ .block body :: u.map .char) = none := by
    rw [strayClose?_eq_none_iff]
    have hblanks : '}' ∉ u := fun hmem => (isPlain_of_isBlank (hu _ hmem)).1.2.2 rfl
    simpa using ⟨close_notMem_padded hname h, hblanks⟩
  rw [pieces_padded_block hname h hbody hu, ofPieces_chars_cons offset s rfl, hstray,
    texts_map_char]
  refine ⟨⟨rfl, ?_, ?_⟩, relationName_of_padded hname h rfl, rfl⟩
  · rw [relationName_of_padded hname h rfl]
    exact hname.toList_ne_nil
  · rintro _ ⟨⟩
    exact ⟨rfl, Text.trim_eq_nil_iff.2 hu, Nat.succ_pos levels⟩

theorem isEntryText_name : IsEntryText s := by
  refine ⟨padded_ne_nil hname h, ?_, ?_⟩ <;> rw [pieces_padded hname h] <;> simp

theorem isEntryText_block {body u : List Char} (hbody : Balanced body) (hu : Blanks u) :
    IsEntryText (s ++ ('{' :: body ++ '}' :: u)) := by
  refine ⟨by simp, ?_, ?_⟩ <;> rw [pieces_padded_block hname h hbody hu] <;> simp

end Entries

/-! ## §4 Derivations -/

mutual

/-- `IsItem object n s r`: the text `s` of an item derives the relation `r`, and blocks stand inside
    one another in it at most `n` times. -/
inductive IsItem (object : List Char → Request → Prop) : Nat → List Char → Relation → Prop
  /-- A name with blanks around it. -/
  | name {n : Nat} {name : String} {s : List Char} (hname : IsName name)
      (hs : Padded name.toList s) :
      IsItem object n s ⟨name, none, []⟩
  /-- A name with a block behind it, and blanks around both. -/
  | block {n : Nat} {name : String} {query : Option Request} {children : List Relation}
      {s t u : List Char} (hname : IsName name) (hs : Padded name.toList s)
      (ht : IsBlock object n t query children) (hu : Blanks u) :
      IsItem object (n + 1) (s ++ ('{' :: t ++ '}' :: u)) ⟨name, query, children⟩

/-- `IsBlock object n t query rs`: the text `t` between the braces of a block derives a request, or
    none, and relations. -/
inductive IsBlock (object : List Char → Request → Prop) :
    Nat → List Char → Option Request → List Relation → Prop
  | level {n : Nat} {t : List Char} {rs : List Relation} (ht : IsLevel object n t rs) :
      IsBlock object n t none rs
  /-- An object with blanks around it. -/
  | object {n : Nat} {q : Request} {s t : List Char} (hq : object s q) (ht : Padded s t) :
      IsBlock object n t (some q) []
  /-- An object with blanks around it, and a level behind it. -/
  | objectLevel {n : Nat} {q : Request} {s t u : List Char} {rs : List Relation}
      (hq : object s q) (ht : Padded s t) (hu : IsLevel object n u rs) :
      IsBlock object n (t ++ ',' :: u) (some q) rs

/-- `IsLevel object n s rs`: the text `s` of a level derives the relations `rs`. -/
inductive IsLevel (object : List Char → Request → Prop) :
    Nat → List Char → List Relation → Prop
  | nil {n : Nat} : IsLevel object n [] []
  | one {n : Nat} {s : List Char} {r : Relation} (hs : IsItem object n s r) :
      IsLevel object n s [r]
  /-- An item and a comma. If no level is left behind the comma, the comma is an extra one. -/
  | cons {n : Nat} {s t : List Char} {r : Relation} {rs : List Relation}
      (hs : IsItem object n s r) (ht : IsLevel object n t rs) :
      IsLevel object n (s ++ ',' :: t) (r :: rs)

end

variable {object : List Char → Request → Prop}

mutual

theorem IsItem.balanced (hobject : ∀ s q, object s q → Balanced s) {n : Nat} {s : List Char}
    {r : Relation} : IsItem object n s r → Balanced s
  | .name hname hs => hname.balanced.padded hs
  | .block hname hs ht hu => by
    have hblock := (IsBlock.balanced hobject ht).block.append (balanced_of_blanks hu)
    rw [List.append_assoc] at hblock
    exact (hname.balanced.padded hs).append hblock

theorem IsBlock.balanced (hobject : ∀ s q, object s q → Balanced s) {n : Nat} {t : List Char}
    {query : Option Request} {rs : List Relation} : IsBlock object n t query rs → Balanced t
  | .level ht => IsLevel.balanced hobject ht
  | .object hq ht => (hobject _ _ hq).padded ht
  | .objectLevel hq ht hu => by
    have hcomma : Balanced [','] := balanced_char (by decide)
    exact ((hobject _ _ hq).padded ht).append (hcomma.append (IsLevel.balanced hobject hu))

/-- What derives from the grammar is balanced if the texts of objects are. -/
theorem IsLevel.balanced (hobject : ∀ s q, object s q → Balanced s) {n : Nat} {s : List Char}
    {rs : List Relation} : IsLevel object n s rs → Balanced s
  | .nil => passes_nil _
  | .one hs => IsItem.balanced hobject hs
  | .cons hs ht => by
    have hcomma : Balanced [','] := balanced_char (by decide)
    exact (IsItem.balanced hobject hs).append (hcomma.append (IsLevel.balanced hobject ht))

end

/-- An item makes up one entry of its level. -/
theorem IsItem.isEntryText (hobject : ∀ s q, object s q → Balanced s) {n : Nat} {s : List Char}
    {r : Relation} (h : IsItem object n s r) : IsEntryText s := by
  cases h with
  | name hname hs => exact isEntryText_name hname hs
  | block hname hs ht hu => exact isEntryText_block hname hs (ht.balanced hobject) hu

end ListQuery.Relation
