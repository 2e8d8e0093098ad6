import ListQuery.Json.Record
import ListQuery.Proofs.Json.Rendering

/-!
# Readers of what was written

A reader reads a text as some content if it does so in front of everything that can stand behind the
text in a JSON document. The readers of records are built from smaller ones, and so are these
statements: a record is read from the object of its fields, in any order, each field being read from
its own text.

## Main definitions

- `ReadsAs`: a reader reads a text as some content.

## Main statements

- `ReadsAs.whole`: the text alone is read as its content;
- `readsAs_array`: an array is read item by item;
- `readsAs_record`: a record is read field by field;
- `record_preserves`: what every field preserves, the reading of a record does.
-/

namespace ListQuery.Json

variable {ε α β σ : Type}

/-! ## §1 Readers and texts -/

/-- Whether a reader reads a text as some content, whatever stands behind the text. -/
def ReadsAs (reader : Reader ε α) (text : List Char) (a : α) : Prop :=
  ∀ s, EndsNumeral s → reader (text ++ s) = .ok (a, s)

section

variable {reader : Reader ε α} {text : List Char} {a : α}

theorem ReadsAs.whole (h : ReadsAs reader text a) : whole reader text = .ok a := by
  have hread := h [] endsNumeral_nil
  rw [List.append_nil] at hread
  unfold Json.whole
  rw [hread]
  rfl

theorem ReadsAs.map (h : ReadsAs reader text a) (g : α → β) :
    ReadsAs (fun s => do let (a, rest) ← reader s; .ok (g a, rest)) text (g a) := by
  intro s hs
  show (reader (text ++ s) >>= fun p => Except.ok (g p.1, p.2)) = _
  rw [h s hs]
  rfl

theorem ReadsAs.field {reader : Nat → Reader ε α} {depth : Nat} (h : ReadsAs (reader depth) text a)
    {key : String} {set : σ → α → σ} {draft draft' : σ} (hset : set draft a = draft') :
    ReadsAs ((RecordField.of key reader set).read depth draft) text draft' :=
  hset ▸ h.map (set draft)

/-- What is no `null` is read by the reader itself. -/
theorem ReadsAs.nullable (h : ReadsAs reader text a) (htext : BeginsOtherThan 'n' text) :
    ReadsAs (nullable reader) text (some a) := by
  intro s hs
  obtain ⟨c, t, rfl, hspace, hne⟩ := htext
  have hread := h s hs
  rw [List.cons_append] at hread ⊢
  unfold Json.nullable
  rw [skipSpace_cons hspace]
  split
  · rename_i heq
    exact absurd (List.cons.inj heq).1 hne
  · show (reader (c :: (t ++ s)) >>= fun p => Except.ok (some p.1, p.2)) = _
    rw [hread]
    rfl

end

/-! ## §2 Values -/

theorem readsAs_string (text : String) : ReadsAs (string : Reader ε String) (literal text) text := by
  intro s _
  rw [literal_append]
  unfold string
  rw [skipSpace_cons rfl]
  show orMalformed (readString _) = _
  rw [readString_escaped]
  rfl

theorem readsAs_int64 (n : Int64) : ReadsAs (int64 : Reader ε Int64) (renderInt n.toInt) n := by
  intro s hs
  have hrange : IntegerRange n.toInt := ⟨n.le_toInt, Int.lt_trans n.toInt_lt (by decide)⟩
  have hreread := Number.rereads_integer hrange
  have hnumber := hreread.number_append (ε := ε) hs
  obtain ⟨numeral, hread, -⟩ := Number.rereads_iff.1 hreread
  obtain ⟨c, t, heq, hc⟩ := exists_cons_of_readNumeral hread
  have hskip : skipSpace (renderInt n.toInt ++ s) = renderInt n.toInt ++ s := by
    change renderInt n.toInt = c :: t at heq
    rw [heq, List.cons_append]
    exact skipSpace_cons (isSpace_of_beginsNumeral hc) _
  have hinteger : (integerFrom (-Nat.pow 2 63) (Nat.pow 2 63) (renderInt n.toInt ++ s) :
      Except (Fault ε) (Int × List Char)) = .ok (n.toInt, s) := by
    unfold integerFrom
    rw [hskip]
    change number (renderInt n.toInt ++ s) = _ at hnumber
    rw [hnumber]
    exact if_pos ⟨n.le_toInt, n.toInt_lt⟩
  unfold int64
  rw [hinteger]
  show Except.ok (Int64.ofInt n.toInt, s) = _
  rw [Int64.ofInt_toInt]

theorem readsAs_value {v : Value} (h : ∀ n ∈ v.numbers, n.Rereads) {depth : Nat}
    (hdepth : v.nesting ≤ depth) :
    ReadsAs (value depth : Reader ε Value) v.render v.canonical := by
  intro s hs
  rw [(readsBack v h).read depth s hs, Value.atDepth, if_pos hdepth]
  rfl

/-- An array is read item by item. -/
theorem readsAs_array {item : Nat → Reader ε α} {depth : Nat} (bs : List β)
    (written : β → Value) (content : β → α)
    (hbegin : ∀ b ∈ bs, BeginsOtherThan ']' (written b).render)
    (hread : ∀ b ∈ bs, ReadsAs (item depth) (written b).render (content b)) :
    ReadsAs (array item (depth + 1)) (Value.array (bs.map written)).render (bs.map content) := by
  intro s _
  have htext : (Value.array (bs.map written)).render ++ s =
      '[' :: (Text.join [','] (bs.map fun b => (written b).render) ++ ']' :: s) := by
    rw [Value.render, Value.renderItems_eq_join, List.map_map]
    simp [Function.comp_def]
  have hitems : (bs.mapM fun b => (Except.ok (content b) : Except (Fault ε) α)) =
      .ok (bs.map content) := List.mapM_pure
  rw [htext, array, skipSpace_cons rfl]
  show items (item depth) _ = _
  rw [items_join (fun b => .ok (content b)) hbegin, hitems]
  · rfl
  · intro b hb s hs
    exact hread b hb s (hs.endsNumeral (Or.inl rfl))

/-! ## §3 Records -/

/-- Enter a field into a draft, if no field of its key was entered. -/
def enterField (key : β → String) (step : β → σ → σ) (state : σ × List String) (b : β) :
    Except (Fault ε) (σ × List String) :=
  if key b ∈ state.2 then malformed else .ok (step b state.1, key b :: state.2)

theorem foldlM_enterField {key : β → String} (step : β → σ → σ) {bs : List β}
    (hkeys : (bs.map key).Nodup) {seen : List String} (hseen : ∀ b ∈ bs, key b ∉ seen) (draft : σ) :
    ∃ seen', (bs.foldlM (enterField key step) (draft, seen) : Except (Fault ε) _) =
      .ok (bs.foldl (fun draft b => step b draft) draft, seen') := by
  induction bs generalizing draft seen with
  | nil => exact ⟨seen, rfl⟩
  | cons b bs ih =>
    obtain ⟨hfresh, hrest⟩ := List.nodup_cons.1 hkeys
    have henter : (enterField key step (draft, seen) b : Except (Fault ε) _) =
        .ok (step b draft, key b :: seen) := if_neg (hseen b List.mem_cons_self)
    rw [List.foldlM_cons, henter]
    refine ih hrest (fun b' hb' => ?_) (step b draft)
    rw [List.mem_cons, not_or]
    refine ⟨fun heq => hfresh (heq ▸ List.mem_map_of_mem hb'), ?_⟩
    exact hseen b' (List.mem_cons_of_mem _ hb')

/-- A record is read field by field from an object, if the keys of the members are distinct and the
    field of every key is read from the member. -/
theorem readsAs_record {fields : List (RecordField ε σ)} {depth : Nat} (bs : List β)
    (written : β → String × Value) (step : β → σ → σ)
    (hkeys : (bs.map fun b => (written b).1).Nodup)
    (hread : ∀ b ∈ bs, ∃ field, fields.find? (·.key = (written b).1) = some field ∧
      ∀ draft, ReadsAs (field.read depth draft) (written b).2.render (step b draft))
    (draft : σ) :
    ReadsAs (record fields draft (depth + 1)) (Value.object (bs.map written)).render
      (bs.foldl (fun draft b => step b draft) draft) := by
  intro s _
  have htext : (Value.object (bs.map written)).render ++ s =
      '{' :: (Text.join [','] (bs.map fun b => Value.renderMember (written b)) ++ '}' :: s) := by
    rw [Value.render, Value.renderMembers_eq_join, List.map_map]
    simp [Function.comp_def]
  have hbegin : ∀ b ∈ bs, BeginsOtherThan '}' (Value.renderMember (written b)) := fun b _ =>
    beginsOtherThan_literal (Or.inr rfl) _ _
  have hentry : ∀ b ∈ bs, ∀ state s, EndsEntry '}' s →
      member fields depth state (Value.renderMember (written b) ++ s) =
        (enterField (fun b => (written b).1) step state b).map fun state => (state, s) := by
    rintro b hb ⟨draft, seen⟩ s hs
    obtain ⟨field, hfind, hfield⟩ := hread b hb
    have hvalue := hfield draft s (hs.endsNumeral (Or.inr rfl))
    unfold member Value.renderMember enterField
    rw [List.append_assoc, List.cons_append, key_literal]
    dsimp only [bind, Except.bind]
    rw [hfind]
    dsimp only
    split
    · rfl
    · rw [hvalue]
      rfl
  obtain ⟨seen', hfold⟩ := foldlM_enterField (ε := ε) step hkeys
    (fun b _ => List.not_mem_nil) draft
  rw [htext, record, skipSpace_cons rfl]
  show (separated '}' (member fields depth) (draft, []) _ >>= fun p => Except.ok (p.1.1, p.2)) = _
  rw [separated_join _ (Or.inr rfl) hbegin hentry, hfold]
  rfl

/-- What every field preserves, the reading of a record does. -/
theorem record_preserves {fields : List (RecordField ε σ)} (Valid : σ → Prop)
    (hfields : ∀ field ∈ fields, ∀ depth draft, Valid draft → ∀ s draft' rest,
      field.read depth draft s = .ok (draft', rest) → Valid draft')
    {draft draft' : σ} (hdraft : Valid draft) {depth : Nat} {s rest : List Char}
    (h : record fields draft depth s = .ok (draft', rest)) : Valid draft' := by
  cases depth with
  | zero => cases h
  | succ depth =>
    rw [record] at h
    split at h
    · obtain ⟨⟨⟨_, _⟩, _⟩, hmembers, ⟨⟩⟩ := bind_eq_ok.1 h
      refine separated_preserves (fun state => Valid state.1) ?_ hdraft hmembers
      rintro ⟨draft, seen⟩ hvalid s state' rest h
      obtain ⟨⟨k, t⟩, -, h⟩ := bind_eq_ok.1 h
      dsimp only at h
      split at h
      · rename_i field hfind
        split at h
        · cases h
        · obtain ⟨⟨_, _⟩, hread, ⟨⟩⟩ := bind_eq_ok.1 h
          exact hfields field (List.mem_of_find?_eq_some hfind) depth draft hvalid _ _ _ hread
      · obtain ⟨_, -, ⟨⟩⟩ := bind_eq_ok.1 h
        exact hvalid
    · obtain ⟨⟨⟨_, _⟩, _⟩, hitems, ⟨⟩⟩ := bind_eq_ok.1 h
      -- The fields to come are fields of the record.
      refine (separated_preserves (fun state => Valid state.1 ∧ state.2 ⊆ fields) ?_
        ⟨hdraft, List.Subset.refl _⟩ hitems).1
      rintro ⟨draft, coming⟩ ⟨hvalid, hcoming⟩ s state' rest h
      cases coming with
      | nil => cases h
      | cons field coming =>
        obtain ⟨⟨_, _⟩, hread, ⟨⟩⟩ := bind_eq_ok.1 h
        obtain ⟨hfield, hcoming⟩ := List.cons_subset.1 hcoming
        exact ⟨hfields field hfield depth draft hvalid _ _ _ hread, hcoming⟩
    · cases h

/-- A record is complete if its finished draft is. -/
theorem ReadsAs.complete {fields : List (RecordField ε σ)} {draft finished : σ} {depth : Nat}
    {text : List Char} (h : ReadsAs (record fields draft depth) text finished)
    {complete : σ → Option α} {a : α} (ha : complete finished = some a) :
    ReadsAs (completeRecord fields draft complete depth) text a := by
  intro s hs
  unfold completeRecord
  show (record fields draft depth (text ++ s) >>= fun p =>
    orMalformed (complete p.1) >>= fun a => Except.ok (a, p.2)) = _
  rw [h s hs]
  show (orMalformed (complete finished) >>= fun a => Except.ok (a, s)) = _
  rw [ha]
  rfl

end ListQuery.Json
