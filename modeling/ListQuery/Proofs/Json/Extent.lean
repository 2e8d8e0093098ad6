import ListQuery.Proofs.Relation.ObjectExtent
import ListQuery.Request.Wire

/-!
# What the readers of JSON texts take off

Every reader of a JSON text takes a balanced text off the front: strings, numbers and all that is
passed over derive from the grammar, whose texts are balanced, and brackets are closed in the order
in which they are opened. So an object in a relation list ends for the reader of JSON where it ends
for the search for a closing brace, whatever its strings hold and however it is formatted.

Being left behind a balanced text is transitive, and that is how the steps of a reader are put
together.

## Main statements

- `leaves_separated`: the entries up to a closing bracket make up a balanced text;
- `takesBalanced_value`, `takesBalanced_skip`: the values of JSON;
- `takesBalanced_record`: records;
- `Request.balanced_of_ofChars`: the object that a request is read from is balanced inside.
-/

namespace ListQuery

namespace Json

open ListQuery.Relation (Balanced IsPlain balanced_char balanced_number balanced_of_plain
  balanced_spaces balanced_string balanced_value passes_nil)

variable {ε α β σ : Type} {s t rest : List Char}

/-! ## §1 Texts left behind balanced ones -/

/-- `rest` is left of `s` behind a balanced text. -/
def Leaves (s rest : List Char) : Prop :=
  ∃ t, Balanced t ∧ s = t ++ rest

namespace Leaves

theorem refl (s : List Char) : Leaves s s :=
  ⟨[], passes_nil _, rfl⟩

theorem trans (hs : Leaves s t) (ht : Leaves t rest) : Leaves s rest := by
  obtain ⟨u, hu, rfl⟩ := hs
  obtain ⟨v, hv, rfl⟩ := ht
  exact ⟨u ++ v, hu.append hv, (List.append_assoc u v rest).symm⟩

theorem cons {c : Char} (hc : IsPlain c) (h : Leaves s rest) : Leaves (c :: s) rest :=
  trans ⟨[c], balanced_char hc, rfl⟩ h

/-- A block is balanced if the text in it is. -/
theorem block (h : Leaves s ('}' :: rest)) : Leaves ('{' :: s) rest := by
  obtain ⟨u, hu, rfl⟩ := h
  exact ⟨'{' :: u ++ ['}'], hu.block, by simp⟩

end Leaves

theorem leaves_of_plain (h : ∀ c ∈ t, IsPlain c) (rest : List Char) : Leaves (t ++ rest) rest :=
  ⟨t, balanced_of_plain h, rfl⟩

theorem leaves_skipSpace (s : List Char) : Leaves s (skipSpace s) := by
  obtain ⟨space, hspace, hs⟩ := eq_append_of_skipSpace (s := s) rfl
  exact ⟨space, balanced_spaces hspace, hs⟩

/-- A text with space in front of it. -/
theorem leaves_of_skipSpace (h : Leaves (skipSpace s) rest) : Leaves s rest :=
  (leaves_skipSpace s).trans h

/-- The reader takes balanced texts off the front. -/
def TakesBalanced (reader : Reader ε α) : Prop :=
  ∀ ⦃s a rest⦄, reader s = .ok (a, rest) → Leaves s rest

/-! ## §2 Words and strings -/

theorem leaves_word {expected : List Char} (hplain : ∀ c ∈ expected, IsPlain c)
    (h : (word expected s : Except (Fault ε) (List Char)) = .ok rest) : Leaves s rest := by
  rw [eq_append_of_word h]
  exact leaves_of_plain hplain rest

theorem leaves_colon (h : (colon s : Except (Fault ε) (List Char)) = .ok rest) :
    Leaves s rest := by
  obtain ⟨space, hspace, rfl⟩ := eq_append_of_colon h
  exact Leaves.trans ⟨space, balanced_spaces hspace, rfl⟩ ((Leaves.refl rest).cons (by decide))

/-- A string with its quotes. -/
theorem leaves_quoted {units : List Nat} (h : readUnits s = some (units, rest)) :
    Leaves ('"' :: s) rest := by
  obtain ⟨body, hbody, rfl⟩ := exists_of_readUnits h
  exact ⟨'"' :: (body ++ ['"']), balanced_string (.quoted hbody), by simp⟩

theorem leaves_readString {text : String} (h : readString s = some (text, rest)) :
    Leaves ('"' :: s) rest := by
  unfold readString at h
  split at h
  · cases h
  · rename_i units r hunits
    split at h
    · cases h
    · obtain ⟨-, rfl⟩ := Prod.mk.inj (Option.some.inj h)
      exact leaves_quoted hunits

/-! ## §3 Numbers -/

theorem leaves_readNumeral {numeral : Numeral} (h : readNumeral s = some (numeral, rest)) :
    Leaves s rest := by
  obtain ⟨t, ht, rfl⟩ := exists_of_readNumeral h
  exact ⟨t, balanced_number ht, rfl⟩

theorem takesBalanced_number : TakesBalanced (number : Reader ε Number) := by
  intro s n rest h
  obtain ⟨⟨numeral, r⟩, hnumeral, h⟩ := bind_eq_ok.1 h
  obtain ⟨m, -, h⟩ := bind_eq_ok.1 h
  obtain ⟨-, rfl⟩ := Prod.mk.inj (Except.ok.inj h)
  exact leaves_readNumeral (orMalformed_eq_ok.1 hnumeral)

/-! ## §4 Entries between commas -/

/-- Every entry read from a valid state is balanced and leads to a valid state. -/
def EntersBalanced (Valid : σ → Prop) (entry : σ → Reader ε σ) : Prop :=
  ∀ state, Valid state → ∀ ⦃s state' rest⦄, entry state s = .ok (state', rest) →
    Leaves s rest ∧ Valid state'

theorem entersBalanced_of_takesBalanced {entry : σ → Reader ε σ}
    (h : ∀ state, TakesBalanced (entry state)) : EntersBalanced (fun _ => True) entry :=
  fun state _ _ _ _ hentry => ⟨h state hentry, trivial⟩

section Separated

variable {close : Char} {Valid : σ → Prop} {entry : σ → Reader ε σ}
    (hentry : EntersBalanced Valid entry) {state state' : σ} (hstate : Valid state)
include hentry hstate

theorem leaves_separatedLoop {fuel : Nat}
    (h : separatedLoop close entry fuel state s = .ok (state', rest)) :
    Leaves s (close :: rest) := by
  induction fuel generalizing state s with
  | zero => cases h
  | succ fuel ih =>
    obtain ⟨⟨next, t⟩, hnext, h⟩ := bind_eq_ok.1 h
    obtain ⟨hleaves, hvalid⟩ := hentry state hstate hnext
    apply hleaves.trans
    apply leaves_of_skipSpace
    dsimp only at h
    split at h
    · cases h
    · rename_i c r hspace
      rw [hspace]
      split at h
      · rename_i hclose
        obtain ⟨-, rfl⟩ := Prod.mk.inj (Except.ok.inj h)
        exact hclose ▸ Leaves.refl _
      · split at h
        · rename_i hcomma
          exact hcomma ▸ (ih hvalid h).cons (by decide)
        · cases h

/-- The entries in front of a closing bracket are balanced. -/
theorem leaves_separated (h : separated close entry state s = .ok (state', rest)) :
    Leaves s (close :: rest) := by
  unfold separated at h
  split at h
  · cases h
  · rename_i c r hspace
    split at h
    · rename_i hclose
      obtain ⟨-, rfl⟩ := Prod.mk.inj (Except.ok.inj h)
      apply leaves_of_skipSpace
      rw [hspace, hclose]
      exact Leaves.refl _
    · exact leaves_separatedLoop hentry hstate h

/-- Entries with brackets around them. -/
theorem leaves_brackets (h : separated ']' entry state s = .ok (state', rest)) :
    Leaves ('[' :: s) rest :=
  ((leaves_separated hentry hstate h).trans ((Leaves.refl rest).cons (by decide))).cons
    (by decide)

end Separated

/-- Entries with braces around them. -/
theorem leaves_braces {entry : σ → Reader ε σ} (hentry : ∀ state, TakesBalanced (entry state))
    {state state' : σ} (h : separated '}' entry state s = .ok (state', rest)) :
    Leaves ('{' :: s) rest :=
  (leaves_separated (entersBalanced_of_takesBalanced hentry) trivial h).block

theorem leaves_items {item : Reader ε α} (hitem : TakesBalanced item) {found : List α}
    (h : items item s = .ok (found, rest)) : Leaves ('[' :: s) rest := by
  obtain ⟨⟨reversed, _⟩, hreversed, ⟨⟩⟩ := bind_eq_ok.1 h
  refine leaves_brackets (entersBalanced_of_takesBalanced ?_) trivial hreversed
  intro found s found' rest h
  obtain ⟨⟨a, _⟩, ha, ⟨⟩⟩ := bind_eq_ok.1 h
  exact hitem ha

theorem takesBalanced_key : TakesBalanced (key : Reader ε String) := by
  intro s k rest h
  unfold key at h
  apply leaves_of_skipSpace
  split at h
  · rename_i r hspace
    rw [hspace]
    obtain ⟨⟨k', t⟩, hstring, h⟩ := bind_eq_ok.1 h
    obtain ⟨u, hcolon, h⟩ := bind_eq_ok.1 h
    obtain ⟨-, rfl⟩ := Prod.mk.inj (Except.ok.inj h)
    exact (leaves_readString (orMalformed_eq_ok.1 hstring)).trans (leaves_colon hcolon)
  · cases h

/-! ## §5 Values -/

/-- A word whose first character is read already. -/
theorem leaves_cons_word {c : Char} {expected : List Char} {a a' : α}
    (hplain : ∀ d ∈ c :: expected, IsPlain d)
    (h : (do .ok (a, ← word expected s) : Except (Fault ε) (α × List Char)) = .ok (a', rest)) :
    Leaves (c :: s) rest := by
  obtain ⟨r, hword, h⟩ := bind_eq_ok.1 h
  obtain ⟨-, rfl⟩ := Prod.mk.inj (Except.ok.inj h)
  exact (leaves_word (fun d hd => hplain d (List.mem_cons_of_mem _ hd)) hword).cons
    (hplain c List.mem_cons_self)

/-- Values of some depth, if those in their arrays and objects are known. -/
theorem takesBalanced_value_step {depth : Nat}
    (hinner : ∀ d, depth = d + 1 → TakesBalanced (value d : Reader ε Value)) :
    TakesBalanced (value depth : Reader ε Value) := by
  intro s v rest h
  unfold value at h
  apply leaves_of_skipSpace
  -- The cases are those of the first character.
  split at h
  · cases h
  · rename_i r hspace
    exact hspace ▸ leaves_cons_word (by simp [IsPlain]) h
  · rename_i r hspace
    exact hspace ▸ leaves_cons_word (by simp [IsPlain]) h
  · rename_i r hspace
    exact hspace ▸ leaves_cons_word (by simp [IsPlain]) h
  · rename_i r hspace
    obtain ⟨⟨text, _⟩, hstring, ⟨⟩⟩ := bind_eq_ok.1 h
    exact hspace ▸ leaves_readString (orMalformed_eq_ok.1 hstring)
  · rename_i r hspace
    split at h
    · cases h
    · rename_i d
      obtain ⟨⟨found, _⟩, hfound, ⟨⟩⟩ := bind_eq_ok.1 h
      exact hspace ▸ leaves_items (hinner d rfl) hfound
  · rename_i r hspace
    split at h
    · cases h
    · rename_i d
      obtain ⟨⟨members, _⟩, hmembers, ⟨⟩⟩ := bind_eq_ok.1 h
      refine hspace ▸ leaves_braces ?_ hmembers
      intro members s members' rest h
      obtain ⟨⟨k, t⟩, hkey, h⟩ := bind_eq_ok.1 h
      obtain ⟨⟨v, _⟩, hv, ⟨⟩⟩ := bind_eq_ok.1 h
      exact (takesBalanced_key hkey).trans (hinner d rfl hv)
  · rename_i c r _ _ _ _ _ _ hspace
    obtain ⟨⟨n, _⟩, hn, ⟨⟩⟩ := bind_eq_ok.1 h
    exact hspace ▸ takesBalanced_number hn

theorem takesBalanced_value (depth : Nat) : TakesBalanced (value depth : Reader ε Value) := by
  induction depth with
  | zero => exact takesBalanced_value_step fun d hd => absurd hd.symm (Nat.succ_ne_zero d)
  | succ depth ih => exact takesBalanced_value_step fun d hd => Nat.succ.inj hd ▸ ih

theorem takesBalanced_skip : TakesBalanced (skip : Reader ε Unit) := by
  intro s v rest h
  obtain ⟨space, v, hspace, hv, rfl⟩ := takesValues _ s rest h
  exact Leaves.trans ⟨space, balanced_spaces hspace, rfl⟩ ⟨v, balanced_value hv, rfl⟩

/-! ## §6 The values of fields -/

theorem takesBalanced_string : TakesBalanced (string : Reader ε String) := by
  intro s text rest h
  unfold string at h
  apply leaves_of_skipSpace
  split at h
  · rename_i r hspace
    exact hspace ▸ leaves_readString (orMalformed_eq_ok.1 h)
  · cases h

theorem takesBalanced_integerFrom (low high : Int) :
    TakesBalanced (integerFrom low high : Reader ε Int) := by
  intro s n rest h
  obtain ⟨⟨number, r⟩, hnumber, h⟩ := bind_eq_ok.1 h
  apply leaves_of_skipSpace
  cases number with
  | float x => cases h
  | integer m hm =>
    dsimp only at h
    split at h
    · obtain ⟨⟩ := h
      exact takesBalanced_number hnumber
    · cases h

theorem takesBalanced_int64 : TakesBalanced (int64 : Reader ε Int64) := by
  intro s n rest h
  obtain ⟨⟨m, _⟩, hm, ⟨⟩⟩ := bind_eq_ok.1 h
  exact takesBalanced_integerFrom _ _ hm

theorem TakesBalanced.nullable {reader : Reader ε α} (hreader : TakesBalanced reader) :
    TakesBalanced (Json.nullable reader) := by
  intro s a rest h
  unfold Json.nullable at h
  apply leaves_of_skipSpace
  split at h
  · rename_i r hspace
    exact hspace ▸ leaves_cons_word (by simp [IsPlain]) h
  · obtain ⟨⟨b, _⟩, hb, ⟨⟩⟩ := bind_eq_ok.1 h
    exact hreader hb

theorem takesBalanced_array {item : Nat → Reader ε α} (hitem : ∀ d, TakesBalanced (item d))
    (depth : Nat) : TakesBalanced (array item depth) := by
  intro s found rest h
  cases depth with
  | zero => cases h
  | succ d =>
    rw [array] at h
    apply leaves_of_skipSpace
    split at h
    · rename_i r hspace
      exact hspace ▸ leaves_items (hitem d) h
    · cases h

/-! ## §7 Records -/

theorem RecordField.takesBalanced_of (key : String) {reader : Nat → Reader ε α}
    (set : σ → α → σ) (hreader : ∀ d, TakesBalanced (reader d)) (depth : Nat) (draft : σ) :
    TakesBalanced ((RecordField.of key reader set).read depth draft) := by
  intro s draft' rest h
  obtain ⟨⟨a, _⟩, ha, ⟨⟩⟩ := bind_eq_ok.1 h
  exact hreader depth ha

section Records

variable {fields : List (RecordField ε σ)}
    (hfields : ∀ field ∈ fields, ∀ depth draft, TakesBalanced (field.read depth draft))
include hfields

theorem takesBalanced_member (depth : Nat) (state : σ × List String) :
    TakesBalanced (member fields depth state) := by
  obtain ⟨draft, seen⟩ := state
  intro s state' rest h
  obtain ⟨⟨k, t⟩, hkey, h⟩ := bind_eq_ok.1 h
  apply (takesBalanced_key hkey).trans
  dsimp only at h
  split at h
  · rename_i field hfind
    split at h
    · cases h
    · obtain ⟨⟨draft', _⟩, hdraft, ⟨⟩⟩ := bind_eq_ok.1 h
      exact hfields field (List.mem_of_find?_eq_some hfind) depth draft hdraft
  · obtain ⟨⟨u, _⟩, hu, ⟨⟩⟩ := bind_eq_ok.1 h
    exact takesBalanced_skip hu

omit hfields in
theorem entersBalanced_position (depth : Nat) :
    EntersBalanced
      (fun state => ∀ field ∈ state.2, ∀ depth draft, TakesBalanced (field.read depth draft))
      (position depth : σ × List (RecordField ε σ) → Reader ε _) := by
  rintro ⟨draft, coming⟩ hcoming s state' rest h
  cases coming with
  | nil => cases h
  | cons field coming =>
    obtain ⟨⟨draft', _⟩, hdraft, ⟨⟩⟩ := bind_eq_ok.1 h
    exact ⟨hcoming field List.mem_cons_self depth draft hdraft,
      fun other hother => hcoming other (List.mem_cons_of_mem _ hother)⟩

/-- A record that is written as an object. -/
theorem leaves_record_brace {depth : Nat} {draft draft' : σ}
    (h : record fields draft (depth + 1) ('{' :: s) = .ok (draft', rest)) :
    Leaves s ('}' :: rest) := by
  obtain ⟨⟨state, _⟩, hstate, ⟨⟩⟩ := bind_eq_ok.1 h
  exact leaves_separated (entersBalanced_of_takesBalanced (takesBalanced_member hfields depth))
    trivial hstate

theorem takesBalanced_record (depth : Nat) (draft : σ) :
    TakesBalanced (record fields draft depth) := by
  intro s draft' rest h
  cases depth with
  | zero => cases h
  | succ d =>
    rw [record] at h
    apply leaves_of_skipSpace
    split at h
    · rename_i r hspace
      obtain ⟨⟨state, _⟩, hstate, ⟨⟩⟩ := bind_eq_ok.1 h
      exact hspace ▸ leaves_braces (takesBalanced_member hfields d) hstate
    · rename_i r hspace
      obtain ⟨⟨state, _⟩, hstate, ⟨⟩⟩ := bind_eq_ok.1 h
      exact hspace ▸ leaves_brackets (entersBalanced_position d) hfields hstate
    · cases h

theorem takesBalanced_completeRecord (draft : σ) (complete : σ → Option α) (depth : Nat) :
    TakesBalanced (completeRecord fields draft complete depth) := by
  intro s a rest h
  obtain ⟨⟨draft', t⟩, hrecord, h⟩ := bind_eq_ok.1 h
  obtain ⟨b, -, ⟨⟩⟩ := bind_eq_ok.1 h
  exact takesBalanced_record hfields depth draft hrecord

end Records

end Json

/-! ## §8 Requests -/

open Json

theorem Filter.takesBalanced_reader (depth : Nat) : TakesBalanced (Filter.reader depth) := by
  intro s f rest h
  obtain ⟨⟨v, t⟩, hv, h⟩ := bind_eq_ok.1 h
  dsimp only at h
  split at h
  · obtain ⟨⟩ := h
    exact takesBalanced_value depth hv
  · cases h

variable {ε : Type}

theorem Direction.takesBalanced_reader : TakesBalanced (Direction.reader : Reader ε Direction) := by
  intro s direction rest h
  obtain ⟨⟨word, _⟩, hword, ⟨⟩⟩ := bind_eq_ok.1 h
  exact takesBalanced_string.nullable hword

theorem Order.takesBalanced_reader (depth : Nat) :
    TakesBalanced (Order.reader depth : Reader ε Order) := by
  apply takesBalanced_completeRecord
  intro field hfield
  simp only [Order.fields, List.mem_cons, List.not_mem_nil, or_false] at hfield
  rcases hfield with rfl | rfl
  · exact RecordField.takesBalanced_of _ _ fun _ => takesBalanced_string
  · exact RecordField.takesBalanced_of _ _ fun _ => Direction.takesBalanced_reader

namespace Request

theorem takesBalanced_fields :
    ∀ field ∈ fields, ∀ depth draft, TakesBalanced (field.read depth draft) := by
  have hint : ∀ _ : Nat, TakesBalanced (nullable int64 : Reader FilterError _) := fun _ =>
    takesBalanced_int64.nullable
  intro field hfield
  simp only [fields, List.mem_cons, List.not_mem_nil, or_false] at hfield
  rcases hfield with rfl | rfl | rfl | rfl | rfl | rfl | rfl
  · exact RecordField.takesBalanced_of _ _ fun d => (Filter.takesBalanced_reader d).nullable
  · exact RecordField.takesBalanced_of _ _ fun d =>
      (takesBalanced_array Order.takesBalanced_reader d).nullable
  · exact RecordField.takesBalanced_of _ _ fun d =>
      (takesBalanced_array (fun _ => takesBalanced_string) d).nullable
  · exact RecordField.takesBalanced_of _ _ fun _ => takesBalanced_string.nullable
  · exact RecordField.takesBalanced_of _ _ hint
  · exact RecordField.takesBalanced_of _ _ hint
  · exact RecordField.takesBalanced_of _ _ hint

/-- What stands between the braces of an object from which a request is read is balanced. -/
theorem balanced_of_ofChars {body : List Char} {q : Request}
    (h : ofChars ('{' :: body ++ ['}']) = .ok q) : Relation.Balanced body := by
  obtain ⟨⟨r, rest⟩, hreader, h⟩ := bind_eq_ok.1 (mapError_eq_ok.1 h)
  dsimp only at h
  split at h
  · rename_i hspace
    obtain ⟨t, ht, heq⟩ := leaves_record_brace takesBalanced_fields hreader
    -- Only space may follow the closing brace, and the text ends in a brace.
    rcases List.eq_nil_or_concat rest with rfl | ⟨u, c, rfl⟩
    · rwa [(List.append_inj' heq rfl).1]
    · have hspace : isSpace c = true := List.dropWhile_eq_nil_iff.1 hspace c (by simp)
      have heq : body ++ ['}'] = (t ++ '}' :: u) ++ [c] := by simpa using heq
      have hclose : '}' = c := List.singleton_inj.1 (List.append_inj' heq rfl).2
      exact absurd hspace (hclose ▸ by decide)
  · cases h

end Request

end ListQuery
