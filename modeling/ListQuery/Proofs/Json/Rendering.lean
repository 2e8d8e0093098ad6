import ListQuery.Proofs.Json.Canonical
import ListQuery.Proofs.Json.Literal
import ListQuery.Proofs.Json.Numeral
import ListQuery.Text.Split

/-!
# Documents are read back

The text of a document is read as the value that the document denotes, but for the numbers: each of
them is read as it is from its own text. So the value comes back if its numbers do. Documents that
nest deeper than allowed are refused.

Arrays, objects and records are entries between commas. What the loop behind them does on entries
that were written one after another is a fold over these entries, and every statement about it goes
back to one about a single entry.

## Main definitions

- `Value.nesting`: how many arrays and objects of a document stand inside one another;
- `Value.numbers`: the numbers of a document;
- `Value.mapNumbers`: the document with other numbers.

## Main statements

- `separated_join`: entries that were written are read one by one;
- `items_join`: items that were written are read one by one;
- `rereadAs_mapNumbers`: what the text of a document is read as;
- `readsBack`: a document is read back if all its numbers are;
- `whole_value_render`: so is a text that is written from it.
-/

namespace ListQuery.Json

variable {ε α β σ : Type}

/-! ## §1 Entries between commas -/

/-- Whether a text begins where an entry ends: at a comma or at the closing bracket. -/
def EndsEntry (close : Char) (s : List Char) : Prop :=
  ∃ t, s = ',' :: t ∨ s = close :: t

/-- The closing brackets of JSON. -/
def IsClose (close : Char) : Prop :=
  close = ']' ∨ close = '}'

theorem EndsEntry.endsNumeral {close : Char} (hclose : IsClose close) {s : List Char}
    (h : EndsEntry close s) : EndsNumeral s := by
  obtain ⟨t, rfl | rfl⟩ := h
  · exact endsNumeral_cons (by decide) t
  · rcases hclose with rfl | rfl
    · exact endsNumeral_cons (by decide) t
    · exact endsNumeral_cons (by decide) t

theorem skipSpace_cons {c : Char} (hc : isSpace c = false) (s : List Char) :
    skipSpace (c :: s) = c :: s :=
  List.dropWhile_cons_of_neg (by simp [hc])

theorem isSpace_of_isClose {close : Char} (h : IsClose close) : isSpace close = false := by
  rcases h with rfl | rfl <;> rfl

theorem EndsEntry.skipSpace_eq {close : Char} (hclose : IsClose close) {s : List Char}
    (h : EndsEntry close s) : skipSpace s = s := by
  obtain ⟨t, rfl | rfl⟩ := h
  · exact skipSpace_cons (by decide) t
  · exact skipSpace_cons (isSpace_of_isClose hclose) t

/-- Whether a text begins with something other than space and one character. If this is the closing
    bracket, an entry begins. -/
def BeginsOtherThan (excluded : Char) (s : List Char) : Prop :=
  ∃ c t, s = c :: t ∧ isSpace c = false ∧ c ≠ excluded

section Separated

variable {close : Char} {entry : σ → Reader ε σ} {write : β → List Char} {bs : List β}

theorem join_cons_append (write : β → List Char) (close : Char) (b : β) (bs : List β)
    (rest : List Char) :
    ∃ s, Text.join [','] ((b :: bs).map write) ++ close :: rest = write b ++ s ∧
      ((bs = [] ∧ s = close :: rest) ∨
        bs ≠ [] ∧ s = ',' :: (Text.join [','] (bs.map write) ++ close :: rest)) := by
  cases bs with
  | nil => exact ⟨close :: rest, rfl, Or.inl ⟨rfl, rfl⟩⟩
  | cons b' bs =>
    refine ⟨_, ?_, Or.inr ⟨List.cons_ne_nil _ _, rfl⟩⟩
    simp [Text.join]

theorem length_le_join (parts : List (List Char)) :
    parts.length ≤ (Text.join [','] parts).length + 1 := by
  induction parts with
  | nil => exact Nat.zero_le _
  | cons part parts ih =>
    cases parts with
    | nil => simp
    | cons next parts =>
      rw [Text.join]
      · simp only [List.length_cons, List.length_append, List.length_nil] at ih ⊢
        omega
      · exact List.cons_ne_nil _ _

theorem separatedLoop_of_entry {fuel : Nat} {state state' : σ} {s t : List Char}
    (h : entry state s = .ok (state', t)) :
    separatedLoop close entry (fuel + 1) state s =
      match skipSpace t with
      | [] => malformed
      | c :: rest =>
        if c = close then .ok (state', rest)
        else if c = ',' then separatedLoop close entry fuel state' rest
        else malformed := by
  rw [separatedLoop, h]
  rfl

/-- The loop reads one entry after another, each up to the space in front of the comma or the bracket
    behind it. -/
theorem separatedLoop_join (step : σ → β → Except (Fault ε) σ) (hclose : IsClose close)
    (hne : bs ≠ [])
    (hentry : ∀ b ∈ bs, ∀ state s, EndsEntry close s → ∃ t, skipSpace t = s ∧
      entry state (write b ++ s) = (step state b).map fun state => (state, t))
    {fuel : Nat} (hfuel : bs.length ≤ fuel) (state : σ) (rest : List Char) :
    separatedLoop close entry fuel state (Text.join [','] (bs.map write) ++ close :: rest) =
      (bs.foldlM step state).map fun state => (state, rest) := by
  induction bs generalizing fuel state with
  | nil => exact absurd rfl hne
  | cons b bs ih =>
    obtain ⟨fuel, rfl⟩ := Nat.exists_eq_add_one.2 (Nat.lt_of_lt_of_le (Nat.succ_pos _) hfuel)
    obtain ⟨s, htext, hs⟩ := join_cons_append write close b bs rest
    have hends : EndsEntry close s := by
      rcases hs with ⟨-, rfl⟩ | ⟨-, rfl⟩
      · exact ⟨_, Or.inr rfl⟩
      · exact ⟨_, Or.inl rfl⟩
    obtain ⟨t, hspace, hfirst⟩ := hentry b List.mem_cons_self state s hends
    rw [htext, List.foldlM_cons]
    cases hstep : step state b with
    | error e =>
      rw [hstep] at hfirst
      rw [separatedLoop, hfirst]
      rfl
    | ok state' =>
      rw [hstep] at hfirst
      rw [separatedLoop_of_entry hfirst, hspace]
      rcases hs with ⟨rfl, rfl⟩ | ⟨hne', rfl⟩
      · exact if_pos rfl
      · have hcomma : ',' ≠ close := by rcases hclose with rfl | rfl <;> decide
        dsimp only
        rw [if_neg hcomma, if_pos rfl]
        exact ih hne' (fun b' hb' => hentry b' (List.mem_cons_of_mem _ hb'))
          (Nat.le_of_succ_le_succ hfuel) state'

/-- Entries that were written one after another, with space around them, are read one by one. -/
theorem separated_join_of_spaced (step : σ → β → Except (Fault ε) σ) (hclose : IsClose close)
    (hne : bs ≠ [])
    (hbegin : ∀ b ∈ bs, ∀ s, BeginsOtherThan close (skipSpace (write b ++ s)))
    (hentry : ∀ b ∈ bs, ∀ state s, EndsEntry close s → ∃ t, skipSpace t = s ∧
      entry state (write b ++ s) = (step state b).map fun state => (state, t))
    (state : σ) (rest : List Char) :
    separated close entry state (Text.join [','] (bs.map write) ++ close :: rest) =
      (bs.foldlM step state).map fun state => (state, rest) := by
  -- Every entry but the last has a comma behind it, so the text is long enough for the loop.
  have hlength : bs.length ≤ (Text.join [','] (bs.map write) ++ close :: rest).length := by
    have hle := length_le_join (bs.map write)
    rw [List.length_map] at hle
    rw [List.length_append, List.length_cons]
    omega
  have hloop := separatedLoop_join step hclose hne hentry hlength state rest
  obtain ⟨b, bs, rfl⟩ := List.exists_cons_of_ne_nil hne
  obtain ⟨s, htext, -⟩ := join_cons_append write close b bs rest
  obtain ⟨c, t, hfirst, -, hother⟩ := hbegin b List.mem_cons_self s
  rw [htext] at hloop ⊢
  unfold separated
  rw [hfirst]
  dsimp only
  rw [if_neg hother]
  exact hloop

/-- Between brackets there may be space alone. -/
theorem separated_space (hclose : IsClose close) {space : List Char}
    (h : ∀ c ∈ space, isSpace c = true) (state : σ) (rest : List Char) :
    separated close entry state (space ++ close :: rest) = .ok (state, rest) := by
  have hskip : skipSpace (space ++ close :: rest) = close :: rest := by
    refine (List.dropWhile_append_of_pos h).trans ?_
    exact skipSpace_cons (isSpace_of_isClose hclose) rest
  unfold separated
  rw [hskip]
  exact if_pos rfl

/-- Entries that were written one after another are read one by one. -/
theorem separated_join (step : σ → β → Except (Fault ε) σ) (hclose : IsClose close)
    (hwrite : ∀ b ∈ bs, BeginsOtherThan close (write b))
    (hentry : ∀ b ∈ bs, ∀ state s, EndsEntry close s →
      entry state (write b ++ s) = (step state b).map fun state => (state, s))
    (state : σ) (rest : List Char) :
    separated close entry state (Text.join [','] (bs.map write) ++ close :: rest) =
      (bs.foldlM step state).map fun state => (state, rest) := by
  cases bs with
  | nil => exact separated_space hclose (List.forall_mem_nil _) state rest
  | cons b bs =>
    refine separated_join_of_spaced step hclose (List.cons_ne_nil b bs) (fun b' hb' s => ?_)
      (fun b' hb' state s hs => ?_) state rest
    · obtain ⟨c, t, hbegin, hspace, hother⟩ := hwrite b' hb'
      refine ⟨c, t ++ s, ?_, hspace, hother⟩
      rw [hbegin, List.cons_append, skipSpace_cons hspace]
    · exact ⟨s, hs.skipSpace_eq hclose, hentry b' hb' state s hs⟩

/-- Items that were written one after another are read one by one. -/
theorem items_join {item : Reader ε α} (read : β → Except (Fault ε) α)
    (hwrite : ∀ b ∈ bs, BeginsOtherThan ']' (write b))
    (hitem : ∀ b ∈ bs, ∀ s, EndsEntry ']' s →
      item (write b ++ s) = (read b).map fun a => (a, s))
    (rest : List Char) :
    items item (Text.join [','] (bs.map write) ++ ']' :: rest) =
      (bs.mapM read).map fun as => (as, rest) := by
  have hfold (found : List α) :
      bs.foldlM (fun found b => (read b).map (· :: found)) found =
        (bs.mapM read).map fun as => as.reverse ++ found := by
    clear hwrite hitem
    induction bs generalizing found with
    | nil => rfl
    | cons b bs ih =>
      rw [List.foldlM_cons, List.mapM_cons]
      cases read b with
      | error e => rfl
      | ok a =>
        refine (ih (a :: found)).trans ?_
        show _ = Except.map _ (bs.mapM read >>= fun as => Except.ok (a :: as))
        cases bs.mapM read with
        | error e => rfl
        | ok as => simp [Except.map, bind, Except.bind]
  unfold items
  rw [separated_join (fun found b => (read b).map (· :: found)) (Or.inl rfl) hwrite]
  · rw [hfold]
    cases bs.mapM read with
    | error e => rfl
    | ok as => simp [Except.map, bind, Except.bind]
  · intro b hb found s hs
    rw [hitem b hb s hs]
    cases read b <;> rfl

end Separated

/-! ## §2 Documents -/

namespace Value

/-- Induction over a document. The items of an array and the members of an object have the property
    in turn. -/
@[elab_as_elim]
theorem induction {P : Value → Prop} (v : Value) (null : P .null) (bool : ∀ b, P (.bool b))
    (number : ∀ n, P (.number n)) (string : ∀ s, P (.string s))
    (array : ∀ vs : List Value, (∀ v ∈ vs, P v) → P (.array vs))
    (object : ∀ members : List (String × Value), (∀ m ∈ members, P m.2) → P (.object members)) :
    P v :=
  @Value.rec P (fun vs => ∀ v ∈ vs, P v) (fun members => ∀ m ∈ members, P m.2) (fun m => P m.2)
    null bool number string array object
    nofun (fun _ _ hv hrest => List.forall_mem_cons.2 ⟨hv, hrest⟩)
    nofun (fun _ _ hm hrest => List.forall_mem_cons.2 ⟨hm, hrest⟩)
    (fun _ _ hv => hv) v

mutual

/-- The number of arrays and objects that stand inside one another. -/
def nesting : Value → Nat
  | .array items => nestingItems items + 1
  | .object members => nestingMembers members + 1
  | _ => 0

def nestingItems : List Value → Nat
  | [] => 0
  | v :: rest => max v.nesting (nestingItems rest)

def nestingMembers : List (String × Value) → Nat
  | [] => 0
  | (_, v) :: rest => max v.nesting (nestingMembers rest)

end

mutual

/-- The numbers of a document. -/
def numbers : Value → List Number
  | .number n => [n]
  | .array items => numbersItems items
  | .object members => numbersMembers members
  | _ => []

def numbersItems : List Value → List Number
  | [] => []
  | v :: rest => v.numbers ++ numbersItems rest

def numbersMembers : List (String × Value) → List Number
  | [] => []
  | (_, v) :: rest => v.numbers ++ numbersMembers rest

end

mutual

/-- The document with every number replaced. -/
def mapNumbers (g : Number → Number) : Value → Value
  | .number n => .number (g n)
  | .array items => .array (mapNumbersItems g items)
  | .object members => .object (mapNumbersMembers g members)
  | v => v

def mapNumbersItems (g : Number → Number) : List Value → List Value
  | [] => []
  | v :: rest => v.mapNumbers g :: mapNumbersItems g rest

def mapNumbersMembers (g : Number → Number) : List (String × Value) → List (String × Value)
  | [] => []
  | (k, v) :: rest => (k, v.mapNumbers g) :: mapNumbersMembers g rest

end

theorem mapNumbers_array (g : Number → Number) (vs : List Value) :
    (array vs).mapNumbers g = array (vs.map (mapNumbers g)) := by
  have hitems : mapNumbersItems g vs = vs.map (mapNumbers g) := by
    induction vs with
    | nil => rfl
    | cons v rest ih => rw [mapNumbersItems, ih, List.map_cons]
  rw [mapNumbers, hitems]

theorem mapNumbers_object (g : Number → Number) (members : List (String × Value)) :
    (object members).mapNumbers g = object (members.map fun m => (m.1, m.2.mapNumbers g)) := by
  have hmembers : mapNumbersMembers g members = members.map fun m => (m.1, m.2.mapNumbers g) := by
    induction members with
    | nil => rfl
    | cons m rest ih => rw [mapNumbersMembers, ih, List.map_cons]
  rw [mapNumbers, hmembers]

theorem mem_numbers_array {vs : List Value} {n : Number} :
    n ∈ (array vs).numbers ↔ ∃ v ∈ vs, n ∈ v.numbers := by
  rw [numbers]
  induction vs with
  | nil => simp [numbersItems]
  | cons v rest ih => simp [numbersItems, ih]

theorem mem_numbers_object {members : List (String × Value)} {n : Number} :
    n ∈ (object members).numbers ↔ ∃ m ∈ members, n ∈ m.2.numbers := by
  rw [numbers]
  induction members with
  | nil => simp [numbersMembers]
  | cons m rest ih => simp [numbersMembers, ih]

/-- Replacing numbers leaves a document as it is only if it leaves each of them as it is. -/
theorem mapNumbers_eq_self_iff {g : Number → Number} {v : Value} :
    v.mapNumbers g = v ↔ ∀ n ∈ v.numbers, g n = n := by
  induction v using Value.induction with
  | null => exact ⟨fun _ _ hn => absurd hn List.not_mem_nil, fun _ => rfl⟩
  | bool b => exact ⟨fun _ _ hn => absurd hn List.not_mem_nil, fun _ => rfl⟩
  | string s => exact ⟨fun _ _ hn => absurd hn List.not_mem_nil, fun _ => rfl⟩
  | number n => simp [mapNumbers, numbers]
  | array vs ih =>
    rw [mapNumbers_array, array.injEq, map_eq_self_iff]
    simp only [mem_numbers_array]
    constructor
    · rintro h n ⟨v, hv, hn⟩
      exact (ih v hv).1 (h v hv) n hn
    · exact fun h v hv => (ih v hv).2 fun n hn => h n ⟨v, hv, hn⟩
  | object members ih =>
    rw [mapNumbers_object, object.injEq, map_eq_self_iff]
    simp only [mem_numbers_object]
    constructor
    · rintro h n ⟨m, hm, hn⟩
      exact (ih m hm).1 (Prod.ext_iff.1 (h m hm)).2 n hn
    · exact fun h m hm => Prod.ext rfl ((ih m hm).2 fun n hn => h n ⟨m, hm, hn⟩)

theorem nestingItems_le_iff {vs : List Value} {d : Nat} :
    nestingItems vs ≤ d ↔ ∀ v ∈ vs, v.nesting ≤ d := by
  induction vs with
  | nil => exact ⟨fun _ => nofun, fun _ => Nat.zero_le d⟩
  | cons v rest ih => rw [nestingItems, Nat.max_le, ih, List.forall_mem_cons]

theorem nestingMembers_le_iff {members : List (String × Value)} {d : Nat} :
    nestingMembers members ≤ d ↔ ∀ m ∈ members, m.2.nesting ≤ d := by
  induction members with
  | nil => exact ⟨fun _ => nofun, fun _ => Nat.zero_le d⟩
  | cons m rest ih => rw [nestingMembers, Nat.max_le, ih, List.forall_mem_cons]

theorem renderItems_eq_join (items : List Value) :
    renderItems items = Text.join [','] (items.map render) := by
  induction items with
  | nil => rfl
  | cons v rest ih =>
    cases rest with
    | nil => simp [renderItems, Text.join]
    | cons w rest =>
      rw [renderItems, ih]
      · simp [Text.join]
      · exact List.cons_ne_nil _ _

/-- The text of a member. -/
def renderMember (m : String × Value) : List Char :=
  literal m.1 ++ ':' :: m.2.render

theorem renderMembers_eq_join (members : List (String × Value)) :
    renderMembers members = Text.join [','] (members.map renderMember) := by
  induction members with
  | nil => rfl
  | cons m rest ih =>
    obtain ⟨k, v⟩ := m
    cases rest with
    | nil => simp [renderMembers, Text.join, renderMember]
    | cons w rest =>
      rw [renderMembers, ih]
      · simp [Text.join, renderMember]
      · exact List.cons_ne_nil _ _

end Value

/-! ## §3 Values -/

theorem value_quote (depth : Nat) (s : List Char) :
    (value depth ('"' :: s) : Except (Fault ε) (Value × List Char)) =
      (orMalformed (readString s)).map fun p => (.string p.1, p.2) := by
  rw [value]
  show (orMalformed (readString s) >>= fun p => Except.ok (Value.string p.1, p.2)) = _
  cases readString s <;> rfl

theorem value_bracket (depth : Nat) (s : List Char) :
    (value (depth + 1) ('[' :: s) : Except (Fault ε) (Value × List Char)) =
      (items (value depth) s).map fun p => (.array p.1, p.2) := by
  rw [value]
  show (items (value depth) s >>= fun p => Except.ok (Value.array p.1, p.2)) = _
  cases items (value depth) s <;> rfl

/-- One member of an object, entered into those before it. -/
def enterMember (depth : Nat) (members : List (String × Value)) :
    Reader ε (List (String × Value)) := fun s => do
  let (k, s) ← key s
  let (v, s) ← value depth s
  .ok (insertKey k v members, s)

theorem value_brace (depth : Nat) (s : List Char) :
    (value (depth + 1) ('{' :: s) : Except (Fault ε) (Value × List Char)) =
      (separated '}' (enterMember depth) [] s).map fun p => (.object p.1, p.2) := by
  rw [value]
  show (separated '}' (enterMember depth) [] s >>= fun p => Except.ok (Value.object p.1, p.2)) = _
  cases separated '}' (enterMember (ε := ε) depth) [] s <;> rfl

theorem value_null (depth : Nat) (s : List Char) :
    (value depth (Value.null.render ++ s) : Except (Fault ε) (Value × List Char)) =
      .ok (.null, s) := by
  show value depth ('n' :: 'u' :: 'l' :: 'l' :: s) = _
  rw [value]
  rfl

theorem value_bool (depth : Nat) (b : Bool) (s : List Char) :
    (value depth ((Value.bool b).render ++ s) : Except (Fault ε) (Value × List Char)) =
      .ok (.bool b, s) := by
  cases b with
  | true =>
    show value depth ('t' :: 'r' :: 'u' :: 'e' :: s) = _
    rw [value]
    rfl
  | false =>
    show value depth ('f' :: 'a' :: 'l' :: 's' :: 'e' :: s) = _
    rw [value]
    rfl

theorem isSpace_of_beginsNumeral {c : Char} (hc : BeginsNumeral c) : isSpace c = false := by
  simp only [isSpace, Bool.or_eq_false_iff, decide_eq_false_iff_not]
  refine ⟨⟨⟨?_, ?_⟩, ?_⟩, ?_⟩ <;> rintro rfl <;> exact absurd hc (by decide)

theorem value_number {c : Char} (hc : BeginsNumeral c) (depth : Nat) (s : List Char) :
    (value depth (c :: s) : Except (Fault ε) (Value × List Char)) =
      (number (c :: s)).map fun p => (.number p.1, p.2) := by
  rw [value, skipSpace_cons (isSpace_of_beginsNumeral hc)]
  split
  case h_1 heq => cases heq
  case h_8 heq =>
    obtain ⟨rfl, rfl⟩ := List.cons.inj heq
    show (number (c :: s) >>= fun p => Except.ok (Value.number p.1, p.2)) = _
    cases number (ε := ε) (c :: s) <;> rfl
  all_goals
    -- No other value begins with such a character.
    rename_i heq
    obtain ⟨rfl, -⟩ := List.cons.inj heq
    exact absurd hc (by decide)

/-! ## §4 Documents are read back -/

theorem beginsOtherThan_cons {close c : Char} (hspace : isSpace c = false) (hne : c ≠ close)
    (s : List Char) : BeginsOtherThan close (c :: s) :=
  ⟨c, s, rfl, hspace, hne⟩

theorem beginsOtherThan_literal {close : Char} (hclose : IsClose close) (s : String)
    (rest : List Char) : BeginsOtherThan close (literal s ++ rest) := by
  rw [literal_append]
  exact beginsOtherThan_cons rfl (by rcases hclose with rfl | rfl <;> decide) _

theorem key_literal (k : String) (s : List Char) :
    (key (literal k ++ ':' :: s) : Except (Fault ε) (String × List Char)) = .ok (k, s) := by
  rw [literal_append]
  unfold key
  rw [skipSpace_cons rfl]
  simp only [readString_escaped]
  rfl

/-- What the text of a document is read as: its value if it nests no deeper than allowed. -/
def Value.atDepth (depth : Nat) (v : Value) : Except (Fault ε) Value :=
  if v.nesting ≤ depth then .ok v.canonical else malformed

theorem mapM_atDepth (depth : Nat) (vs : List Value) :
    (vs.mapM (Value.atDepth depth) : Except (Fault ε) (List Value)) =
      if Value.nestingItems vs ≤ depth then .ok (Value.canonicalItems vs) else malformed := by
  induction vs with
  | nil => exact (if_pos (Nat.zero_le _)).symm
  | cons v rest ih =>
    rw [List.mapM_cons, ih, Value.atDepth, Value.nestingItems, Value.canonicalItems]
    by_cases hv : v.nesting ≤ depth
    · by_cases hrest : Value.nestingItems rest ≤ depth
      · rw [if_pos hv, if_pos hrest, if_pos (Nat.max_le.2 ⟨hv, hrest⟩)]
        rfl
      · rw [if_pos hv, if_neg hrest, if_neg fun h => hrest (Nat.max_le.1 h).2]
        rfl
    · rw [if_neg hv, if_neg fun h => hv (Nat.max_le.1 h).1]
      rfl

/-- Enter the value of a member into those before it. -/
def enterValue (depth : Nat) (members : List (String × Value)) (m : String × Value) :
    Except (Fault ε) (List (String × Value)) :=
  (m.2.atDepth depth).map fun v => insertKey m.1 v members

theorem foldlM_enterValue (depth : Nat) (members entered : List (String × Value)) :
    (members.foldlM (enterValue depth) entered : Except (Fault ε) _) =
      if Value.nestingMembers members ≤ depth then .ok (Value.canonicalMembers members entered)
      else malformed := by
  induction members generalizing entered with
  | nil => exact (if_pos (Nat.zero_le _)).symm
  | cons m rest ih =>
    obtain ⟨k, v⟩ := m
    rw [List.foldlM_cons, enterValue, Value.atDepth, Value.nestingMembers, Value.canonicalMembers]
    by_cases hv : v.nesting ≤ depth
    · rw [if_pos hv]
      refine (ih (insertKey k v.canonical entered)).trans ?_
      by_cases hrest : Value.nestingMembers rest ≤ depth
      · rw [if_pos hrest, if_pos (Nat.max_le.2 ⟨hv, hrest⟩)]
      · rw [if_neg hrest, if_neg fun h => hrest (Nat.max_le.1 h).2]
    · rw [if_neg hv, if_neg fun h => hv (Nat.max_le.1 h).1]
      rfl

/-- A document whose text is read as another document, whatever stands behind it. -/
structure Value.RereadAs (ε : Type) (v w : Value) : Prop where
  begins : BeginsOtherThan ']' v.render
  read : ∀ (depth : Nat) (s : List Char), EndsNumeral s →
    (value depth (v.render ++ s) : Except (Fault ε) (Value × List Char)) =
      (w.atDepth depth).map fun v => (v, s)

theorem Value.RereadAs.whole {v w : Value} (h : v.RereadAs ε w) (depth : Nat) :
    (whole (value depth) v.render : Except (Fault ε) Value) = w.atDepth depth := by
  have hread := h.read depth [] endsNumeral_nil
  rw [List.append_nil] at hread
  unfold Json.whole
  rw [hread]
  cases w.atDepth (ε := ε) depth <;> rfl

theorem rereadAs_array (g : Value → Value) {vs : List Value} (h : ∀ v ∈ vs, v.RereadAs ε (g v)) :
    (Value.array vs).RereadAs ε (.array (vs.map g)) := by
  refine ⟨beginsOtherThan_cons rfl (by decide) _, fun depth s _ => ?_⟩
  have htext : (Value.array vs).render ++ s =
      '[' :: (Text.join [','] (vs.map Value.render) ++ ']' :: s) := by
    rw [Value.render, Value.renderItems_eq_join]
    simp
  rw [htext]
  unfold Value.atDepth Value.nesting Value.canonical
  cases depth with
  | zero =>
    rw [value, if_neg (Nat.not_succ_le_zero _)]
    rfl
  | succ depth =>
    rw [value_bracket, items_join (Value.atDepth depth ∘ g)
      (fun v hv => (h v hv).begins)
      (fun v hv s hs => (h v hv).read depth s (hs.endsNumeral (Or.inl rfl))),
      ← List.mapM_map, mapM_atDepth]
    by_cases hdepth : Value.nestingItems (vs.map g) ≤ depth
    · rw [if_pos hdepth, if_pos (Nat.succ_le_succ hdepth)]
      rfl
    · rw [if_neg hdepth, if_neg fun hle => hdepth (Nat.le_of_succ_le_succ hle)]
      rfl

theorem rereadAs_object (g : Value → Value) {members : List (String × Value)}
    (h : ∀ m ∈ members, m.2.RereadAs ε (g m.2)) :
    (Value.object members).RereadAs ε (.object (members.map fun m => (m.1, g m.2))) := by
  refine ⟨beginsOtherThan_cons rfl (by decide) _, fun depth s _ => ?_⟩
  have htext : (Value.object members).render ++ s =
      '{' :: (Text.join [','] (members.map Value.renderMember) ++ '}' :: s) := by
    rw [Value.render, Value.renderMembers_eq_join]
    simp
  have hentry : ∀ m ∈ members, ∀ (depth : Nat) (entered : List (String × Value)) (s : List Char),
      EndsEntry '}' s → enterMember depth entered (Value.renderMember m ++ s) =
        (enterValue depth entered (m.1, g m.2) : Except (Fault ε) _).map
          fun entered => (entered, s) := by
    rintro ⟨k, v⟩ hm depth entered s hs
    have hvalue := (h (k, v) hm).read depth s (hs.endsNumeral (Or.inr rfl))
    unfold enterMember Value.renderMember enterValue
    rw [List.append_assoc, List.cons_append, key_literal]
    show (value depth (v.render ++ s) >>= fun p => Except.ok (insertKey k p.1 entered, p.2)) = _
    rw [hvalue]
    cases (g v).atDepth (ε := ε) depth <;> rfl
  rw [htext]
  unfold Value.atDepth Value.nesting Value.canonical
  cases depth with
  | zero =>
    rw [value, if_neg (Nat.not_succ_le_zero _)]
    rfl
  | succ depth =>
    have hbegins : ∀ m ∈ members, BeginsOtherThan '}' (Value.renderMember m) := fun m _ =>
      beginsOtherThan_literal (Or.inr rfl) m.1 _
    rw [value_brace, separated_join (fun entered m => enterValue depth entered (m.1, g m.2))
      (Or.inr rfl) hbegins (fun m hm entered s hs => hentry m hm depth entered s hs),
      ← List.foldlM_map, foldlM_enterValue]
    by_cases hdepth : Value.nestingMembers (members.map fun m => (m.1, g m.2)) ≤ depth
    · rw [if_pos hdepth, if_pos (Nat.succ_le_succ hdepth)]
      rfl
    · rw [if_neg hdepth, if_neg fun hle => hdepth (Nat.le_of_succ_le_succ hle)]
      rfl

theorem rereadAs_null : Value.null.RereadAs ε .null :=
  ⟨beginsOtherThan_cons rfl (by decide) _, fun depth s _ => value_null depth s⟩

theorem rereadAs_bool (b : Bool) : (Value.bool b).RereadAs ε (.bool b) := by
  refine ⟨?_, fun depth s _ => value_bool depth b s⟩
  cases b <;> exact beginsOtherThan_cons rfl (by decide) _

theorem rereadAs_string (text : String) : (Value.string text).RereadAs ε (.string text) := by
  have hbegins := beginsOtherThan_literal (Or.inl rfl) text []
  rw [List.append_nil] at hbegins
  refine ⟨hbegins, fun depth s _ => ?_⟩
  rw [Value.render, literal_append, value_quote, readString_escaped]
  rfl

theorem Number.beginsOtherThan {n m : Number} (h : n.reread? = some m) {excluded : Char}
    (hexcluded : ¬BeginsNumeral excluded) : BeginsOtherThan excluded (renderNumber n) := by
  obtain ⟨numeral, hread, -⟩ := Number.reread?_eq_some_iff.1 h
  obtain ⟨c, t, heq, hc⟩ := exists_cons_of_readNumeral hread
  rw [heq]
  refine beginsOtherThan_cons (isSpace_of_beginsNumeral hc) ?_ t
  rintro rfl
  exact hexcluded hc

theorem Number.Rereads.beginsOtherThan {n : Number} (h : n.Rereads) {excluded : Char}
    (hexcluded : ¬BeginsNumeral excluded) : BeginsOtherThan excluded (renderNumber n) :=
  Number.beginsOtherThan (Number.rereads_iff_reread?.1 h) hexcluded

theorem rereadAs_number {n m : Number} (h : n.reread? = some m) :
    (Value.number n).RereadAs ε (.number m) := by
  refine ⟨Number.beginsOtherThan h (by decide), fun depth s hs => ?_⟩
  obtain ⟨numeral, hread, -⟩ := Number.reread?_eq_some_iff.1 h
  obtain ⟨c, t, heq, hc⟩ := exists_cons_of_readNumeral hread
  have hnumber := Number.number_append (ε := ε) h hs
  rw [heq, List.cons_append] at hnumber
  rw [Value.render, heq, List.cons_append, value_number hc, hnumber]
  rfl

/-- The text of a document is read as the document with the numbers that its numbers are read as. -/
theorem rereadAs_mapNumbers (g : Number → Number) {v : Value}
    (h : ∀ n ∈ v.numbers, n.reread? = some (g n)) : v.RereadAs ε (v.mapNumbers g) := by
  induction v using Value.induction with
  | null => exact rereadAs_null
  | bool b => exact rereadAs_bool b
  | number n => exact rereadAs_number (h n List.mem_cons_self)
  | string s => exact rereadAs_string s
  | array vs ih =>
    rw [Value.mapNumbers_array]
    exact rereadAs_array (Value.mapNumbers g) fun v hv =>
      ih v hv fun n hn => h n (Value.mem_numbers_array.2 ⟨v, hv, hn⟩)
  | object members ih =>
    rw [Value.mapNumbers_object]
    exact rereadAs_object (Value.mapNumbers g) fun m hm =>
      ih m hm fun n hn => h n (Value.mem_numbers_object.2 ⟨m, hm, hn⟩)

/-- A document is read back if all its numbers are. -/
theorem readsBack (v : Value) (h : ∀ n ∈ v.numbers, n.Rereads) : v.RereadAs ε v := by
  have hself : v.mapNumbers (fun n => n) = v := Value.mapNumbers_eq_self_iff.2 fun _ _ => rfl
  have hread := rereadAs_mapNumbers (ε := ε) (fun n => n) fun n hn =>
    Number.rereads_iff_reread?.1 (h n hn)
  rwa [hself] at hread

/-- A text that is written from a document and nothing else is read as the document's value. -/
theorem whole_value_render {v : Value} (h : ∀ n ∈ v.numbers, n.Rereads) (depth : Nat) :
    (whole (value depth) v.render : Except (Fault ε) Value) = v.atDepth depth :=
  (readsBack v h).whole depth

end ListQuery.Json
