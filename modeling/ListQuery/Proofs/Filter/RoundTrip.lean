import ListQuery.Proofs.Filter.Operand
import ListQuery.Proofs.Filter.Tree
import ListQuery.Proofs.Result
import Mathlib.Tactic.SplitIfs

/-!
# Writing a filter and reading it back

A filter that is written as a value and read back keeps its tree, and every field arrives as what
its operand is read as. Only a field with the name of a combinator gets lost: it takes the
combinator's place. So the filters that come back unchanged are those in *wire normal form*, where
no field has such a name and the constraints on every field are in wire normal form. They are also
the only filters that are ever read from a value.

## Main statements

- `Filter.ofMembers_part`: each part of the draft of an object is decided by the last member for it;
- `Filter.ofValue_toValue`: what a written filter is read as;
- `Filter.wireNormal_of_ofValue`: a filter that is read is in wire normal form;
- `Filter.ofValue_toValue_iff`: the filters that come back unchanged.
-/

namespace ListQuery

open Json (Value)

/-! ## §1 Wire normal form -/

/-- The wire keys of the combinators. -/
def combinatorKeys : List String :=
  [Combinator.and.key, Combinator.or.key, Combinator.not.key]

/-- Whether, at every node, no field has the name of a combinator and the constraints on every field
    are in wire normal form. -/
def Filter.WireNormal (f : Filter) : Prop :=
  ∀ e ∈ f.walk, e.1 ∉ combinatorKeys ∧ e.2.WireNormal

instance (f : Filter) : Decidable f.WireNormal :=
  inferInstanceAs (Decidable (∀ e ∈ f.walk, _))

namespace Filter

/-! ## §2 The draft of an object -/

/-- Enter one member of an object into a draft. -/
def Draft.enter (d : Draft) (k : String) (v : Value) : Draft :=
  if k = "$and" then { d with and := ofList .and v }
  else if k = "$or" then { d with or := ofList .or v }
  else if k = "$not" then
    { d with not :=
        if v = .null then .ok none
        else ((ofValue v).mapError (.inside .not)).map some }
  else { d with fields := d.fields.insert k (Constraints.ofOperand v) }

theorem ofMembers_cons (d : Draft) (k : String) (v : Value) (rest : List (String × Value)) :
    ofMembers d ((k, v) :: rest) = ofMembers (d.enter k v) rest := by
  rw [ofMembers]
  rfl

/-- A part of the draft that one key sets is what the last member with this key sets it to. -/
theorem ofMembers_part {α : Type} {part : Draft → α} {key : String} {value : Value → α}
    (h : ∀ d k v, part (d.enter k v) = if k = key then value v else part d) (d : Draft)
    (members : List (String × Value)) :
    part (ofMembers d members) = ((Value.member? key members).map value).getD (part d) := by
  induction members generalizing d with
  | nil => rfl
  | cons e rest ih =>
    obtain ⟨k, v⟩ := e
    rw [ofMembers_cons, ih, Value.member?]
    cases Value.member? key rest with
    | some later => rfl
    | none =>
      show part (d.enter k v) = _
      rw [h]
      split_ifs <;> rfl

theorem Draft.enter_and (d : Draft) (k : String) (v : Value) :
    (d.enter k v).and = if k = "$and" then ofList .and v else d.and := by
  unfold Draft.enter
  split_ifs <;> rfl

theorem Draft.enter_or (d : Draft) (k : String) (v : Value) :
    (d.enter k v).or = if k = "$or" then ofList .or v else d.or := by
  unfold Draft.enter
  split_ifs with hand hor <;> first | rfl | simp [hand] at hor

theorem Draft.enter_not (d : Draft) (k : String) (v : Value) :
    (d.enter k v).not = if k = "$not" then
      (if v = .null then .ok none else ((ofValue v).mapError (.inside .not)).map some)
    else d.not := by
  unfold Draft.enter
  by_cases hand : k = "$and"
  · simp [hand]
  · by_cases hor : k = "$or"
    · simp [hor]
    · rw [if_neg hand, if_neg hor]
      split_ifs <;> rfl

theorem Draft.enter_fields (d : Draft) (k : String) (v : Value) :
    (d.enter k v).fields =
      if k ∈ combinatorKeys then d.fields else d.fields.insert k (Constraints.ofOperand v) := by
  have hkeys : k ∈ combinatorKeys ↔ k = "$and" ∨ k = "$or" ∨ k = "$not" := by
    simp only [combinatorKeys, Combinator.key, List.mem_cons, List.not_mem_nil, or_false]
  unfold Draft.enter
  simp only [hkeys]
  by_cases hand : k = "$and"
  · simp only [hand, ↓reduceIte, true_or]
  · by_cases hor : k = "$or"
    · rw [if_neg hand, if_pos hor, if_pos (Or.inr (Or.inl hor))]
    · simp only [hor, hand, ↓reduceIte, false_or]
      split_ifs <;> rfl

/-- The fields of a draft are the members that are no combinators, each read as an operand. -/
theorem get?_ofMembers (d : Draft) (members : List (String × Value)) (name : String) :
    (ofMembers d members).fields.get? name =
      if name ∈ combinatorKeys then d.fields.get? name
      else ((Value.member? name members).map Constraints.ofOperand).or (d.fields.get? name) := by
  split_ifs with hname
  -- A member with the key of a combinator is no field, and no other member has this key.
  · induction members generalizing d with
    | nil => rfl
    | cons e rest ih =>
      rw [ofMembers_cons, ih, Draft.enter_fields]
      split_ifs with hk
      · rfl
      · have hne : name ≠ e.1 := fun heq => hk (heq ▸ hname)
        rw [KeyMap.get?_insert, if_neg hne]
  · have henter : ∀ (d : Draft) (k : String) (v : Value), (d.enter k v).fields.get? name =
        if k = name then some (Constraints.ofOperand v) else d.fields.get? name := by
      intro d k v
      rw [Draft.enter_fields]
      split_ifs with hmem hk hk
      · exact absurd hmem (hk ▸ hname)
      · rfl
      · rw [KeyMap.get?_insert, if_pos hk.symm]
      · rw [KeyMap.get?_insert, if_neg (Ne.symm hk)]
    have hpart : (ofMembers d members).fields.get? name =
        ((Value.member? name members).map fun v => some (Constraints.ofOperand v)).getD
          (d.fields.get? name) :=
      @ofMembers_part _ (fun d => d.fields.get? name) _ _ henter d members
    rw [hpart]
    cases Value.member? name members <;> rfl

/-! ## §3 What is read is in wire normal form -/

/-- Whether what a draft holds so far is in wire normal form. -/
structure Draft.WireNormal (d : Draft) : Prop where
  and : ∀ fs, d.and = .ok fs → ∀ f ∈ fs, f.WireNormal
  or : ∀ fs, d.or = .ok fs → ∀ f ∈ fs, f.WireNormal
  not : ∀ o, d.not = .ok o → ∀ f ∈ o, f.WireNormal
  fields : ∀ e ∈ d.fields.entries, e.1 ∉ combinatorKeys ∧ e.2.WireNormal

theorem Draft.wireNormal_empty : ({} : Draft).WireNormal where
  and := by
    intro fs hfs f hf
    rw [← Except.ok.inj hfs] at hf
    exact absurd hf List.not_mem_nil
  or := by
    intro fs hfs f hf
    rw [← Except.ok.inj hfs] at hf
    exact absurd hf List.not_mem_nil
  not := by
    intro o ho f hf
    rw [← Except.ok.inj ho] at hf
    exact absurd hf (Option.not_mem_none f)
  fields := by
    intro e he
    exact absurd he List.not_mem_nil

theorem Draft.WireNormal.finish {d : Draft} (h : d.WireNormal) {f : Filter}
    (hf : d.finish = .ok f) : f.WireNormal := by
  unfold Draft.finish at hf
  obtain ⟨and, hand, hf⟩ := bind_eq_ok.1 hf
  obtain ⟨not, hnot, hf⟩ := bind_eq_ok.1 hf
  obtain ⟨or, hor, hf⟩ := bind_eq_ok.1 hf
  rw [← Except.ok.inj hf]
  intro e he
  rcases mem_walk.1 he with he | ⟨g, hg, he⟩
  · exact h.fields e he
  · rcases mem_parts.1 hg with hg | hg | hg
    · exact h.and and hand g hg e he
    · exact h.or or hor g hg e he
    · exact h.not not hnot g hg e he

mutual

/-- A filter that is read from a value is in wire normal form. -/
theorem wireNormal_of_ofValue : (v : Value) → {f : Filter} → ofValue v = .ok f → f.WireNormal
  | .object members, f, h => by
    rw [ofValue] at h
    exact (wireNormal_ofMembers members Draft.wireNormal_empty).finish h
  | .null, _, h | .bool _, _, h | .number _, _, h | .string _, _, h | .array _, _, h => nomatch h

/-- Entering members keeps the wire normal form of a draft. -/
theorem wireNormal_ofMembers : (members : List (String × Value)) → {d : Draft} → d.WireNormal →
    (ofMembers d members).WireNormal
  | [], _, h => h
  | (k, v) :: rest, d, h => by
    rw [ofMembers_cons]
    apply wireNormal_ofMembers rest
    -- One member replaces one part of the draft and leaves the others.
    constructor
    · intro fs hfs
      rw [Draft.enter_and] at hfs
      split_ifs at hfs
      · exact wireNormal_ofList .and v hfs
      · exact h.and fs hfs
    · intro fs hfs
      rw [Draft.enter_or] at hfs
      split_ifs at hfs
      · exact wireNormal_ofList .or v hfs
      · exact h.or fs hfs
    · intro o ho
      rw [Draft.enter_not] at ho
      split_ifs at ho
      · intro f hf
        rw [← Except.ok.inj ho] at hf
        exact absurd hf (Option.not_mem_none f)
      · obtain ⟨f, hf, rfl⟩ := map_eq_ok.1 ho
        intro g hg
        rw [← Option.some.inj hg]
        exact wireNormal_of_ofValue v (mapError_eq_ok.1 hf)
      · exact h.not o ho
    · intro e he
      rw [Draft.enter_fields] at he
      split_ifs at he with hk
      · exact h.fields e he
      · rcases mem_insertKey he with rfl | he
        · exact ⟨hk, Constraints.wireNormal_ofOperand v⟩
        · exact h.fields e he

theorem wireNormal_ofList (b : Combinator) : (v : Value) → {fs : List Filter} →
    ofList b v = .ok fs → ∀ f ∈ fs, f.WireNormal
  | .null, fs, h => by
    intro f hf
    rw [← Except.ok.inj h] at hf
    exact absurd hf List.not_mem_nil
  | .array items, fs, h => by
    rw [ofList] at h
    exact wireNormal_ofItems items (mapError_eq_ok.1 h)
  | .bool _, _, h | .number _, _, h | .string _, _, h | .object _, _, h => nomatch h

theorem wireNormal_ofItems : (items : List Value) → {fs : List Filter} →
    ofItems items = .ok fs → ∀ f ∈ fs, f.WireNormal
  | [], fs, h => by
    intro f hf
    rw [← Except.ok.inj h] at hf
    exact absurd hf List.not_mem_nil
  | v :: rest, fs, h => by
    rw [ofItems] at h
    obtain ⟨f, hf, h⟩ := bind_eq_ok.1 h
    obtain ⟨fs', hfs, h⟩ := bind_eq_ok.1 h
    rw [← Except.ok.inj h]
    intro g hg
    rcases List.mem_cons.1 hg with heq | hg
    · rw [heq]
      exact wireNormal_of_ofValue v hf
    · exact wireNormal_ofItems rest hfs g hg

end

/-! ## §4 What is written -/

/-- The members that a filter writes for its combinators. -/
def combinatorMembers (f : Filter) : List (String × Value) :=
  (if f.and.isEmpty then [] else [("$and", .array (f.and.map toValue))]) ++
    (if f.or.isEmpty then [] else [("$or", .array (f.or.map toValue))]) ++
    f.not.toList.map fun g => ("$not", g.toValue)

/-- The members that a filter writes for its fields. -/
def fieldMembers (f : Filter) : List (String × Value) :=
  f.fields.entries.map fun e => (e.1, e.2.toOperand)

/-- A filter enters its combinators and then its fields into an object. -/
theorem toValue_eq (f : Filter) :
    f.toValue = .object (enterAll (f.combinatorMembers ++ f.fieldMembers) []) := by
  obtain ⟨and, or, not, fields⟩ := f
  have hfields : ∀ members, fields.entries.foldl
      (fun members e => insertKey e.1 e.2.toOperand members) members =
        enterAll (fields.entries.map fun e => (e.1, e.2.toOperand)) members := by
    intro members
    unfold enterAll
    rw [List.foldl_map]
  unfold combinatorMembers fieldMembers
  simp only [enterAll_append]
  cases not <;> simp only [toValue, toValues_eq_map, hfields] <;> split_ifs <;>
    simp [insertKey]

theorem nodup_keys_combinatorMembers (f : Filter) :
    (f.combinatorMembers.map Prod.fst).Nodup := by
  unfold combinatorMembers
  cases f.not <;> split_ifs <;> simp

theorem mem_combinatorKeys_of_mem {f : Filter} {e : String × Value}
    (h : e ∈ f.combinatorMembers) : e.1 ∈ combinatorKeys := by
  simp only [combinatorMembers, List.mem_append, List.mem_map] at h
  rcases h with (h | h) | ⟨g, -, rfl⟩
  · split_ifs at h
    · exact absurd h List.not_mem_nil
    · rw [List.mem_singleton.1 h]
      exact List.mem_of_elem_eq_true rfl
  · split_ifs at h
    · exact absurd h List.not_mem_nil
    · rw [List.mem_singleton.1 h]
      exact List.mem_of_elem_eq_true rfl
  · show "$not" ∈ combinatorKeys
    decide

theorem lookup_combinatorMembers_and (f : Filter) : f.combinatorMembers.lookup "$and" =
    if f.and.isEmpty then none else some (.array (f.and.map toValue)) := by
  unfold combinatorMembers
  cases f.not <;> split_ifs <;> simp [lookup_cons_ite]

theorem lookup_combinatorMembers_or (f : Filter) : f.combinatorMembers.lookup "$or" =
    if f.or.isEmpty then none else some (.array (f.or.map toValue)) := by
  unfold combinatorMembers
  cases f.not <;> split_ifs <;> simp [lookup_cons_ite]

theorem lookup_combinatorMembers_not (f : Filter) :
    f.combinatorMembers.lookup "$not" = f.not.map toValue := by
  unfold combinatorMembers
  cases f.not <;> split_ifs <;> simp [lookup_cons_ite]

/-- If no field of the node has the name of a combinator, an object holds what was entered. -/
theorem member?_toValue {f : Filter} (h : ∀ e ∈ f.fields.entries, e.1 ∉ combinatorKeys)
    (k : String) :
    Value.member? k (enterAll (f.combinatorMembers ++ f.fieldMembers) []) =
      (f.combinatorMembers.lookup k).or ((f.fields.get? k).map Constraints.toOperand) := by
  have hfields : f.fieldMembers.map Prod.fst = f.fields.entries.map Prod.fst := by
    unfold fieldMembers
    rw [List.map_map]
    rfl
  have hkeys : ((f.combinatorMembers ++ f.fieldMembers).map Prod.fst).Nodup := by
    rw [List.map_append, hfields, List.nodup_append]
    -- The keys of the combinators are distinct, so are those of the fields, and by the hypothesis
    -- no field has the key of a combinator.
    refine ⟨f.nodup_keys_combinatorMembers, f.fields.keysIncrease.nodup_keys, ?_⟩
    intro key hkey name hname heq
    obtain ⟨e, he, rfl⟩ := List.mem_map.1 hkey
    obtain ⟨e', he', rfl⟩ := List.mem_map.1 hname
    exact h e' he' (heq ▸ mem_combinatorKeys_of_mem he)
  rw [member?_eq_lookup (KeysIncrease.enterAll List.Pairwise.nil _), lookup_enterAll hkeys,
    List.lookup_nil, Option.or_none, List.lookup_append]
  congr 1
  exact lookup_map_values _ _ _

theorem ofItems_map_toValue {r : Filter → Filter} {fs : List Filter}
    (h : ∀ g ∈ fs, ofValue g.toValue = .ok (r g)) :
    ofItems (fs.map toValue) = .ok (fs.map r) := by
  induction fs with
  | nil => rfl
  | cons f rest ih =>
    rw [List.map_cons, ofItems, h f List.mem_cons_self,
      ih fun g hg => h g (List.mem_cons_of_mem f hg)]
    rfl

theorem ofList_written {r : Filter → Filter} {fs : List Filter} (b : Combinator)
    (h : ∀ g ∈ fs, ofValue g.toValue = .ok (r g)) :
    ((if fs.isEmpty then none else some (Value.array (fs.map toValue))).map (ofList b)).getD
      (.ok []) = .ok (fs.map r) := by
  cases fs with
  | nil => rfl
  | cons f rest =>
    show ofList b (.array ((f :: rest).map toValue)) = _
    rw [ofList, ofItems_map_toValue h]
    rfl

/-- A filter without fields named like combinators is read back with every operand read anew. -/
theorem ofValue_toValue {f : Filter} (h : ∀ e ∈ f.walk, e.1 ∉ combinatorKeys) :
    ofValue f.toValue = .ok (f.mapFields fun c => Constraints.ofOperand c.toOperand) := by
  induction f using Filter.induction with
  | node f ih =>
    have hnames : ∀ e ∈ f.fields.entries, e.1 ∉ combinatorKeys := fun e he =>
      h e (mem_walk.2 (Or.inl he))
    have hpart : ∀ g ∈ f.parts, ofValue g.toValue =
        .ok (g.mapFields fun c => Constraints.ofOperand c.toOperand) := fun g hg =>
      ih g hg fun e he => h e (mem_walk.2 (Or.inr ⟨g, hg, he⟩))
    have hreserved : ∀ k ∈ combinatorKeys, f.fields.get? k = none := by
      intro k hk
      apply lookup_eq_none_of_ne
      intro e he heq
      exact hnames e he (heq ▸ hk)
    generalize hms : enterAll (f.combinatorMembers ++ f.fieldMembers) [] = members
    have hmember : ∀ k, Value.member? k members = (f.combinatorMembers.lookup k).or
        ((f.fields.get? k).map Constraints.toOperand) := fun k => hms ▸ member?_toValue hnames k
    have hcombinator : ∀ k ∈ combinatorKeys,
        Value.member? k members = f.combinatorMembers.lookup k := by
      intro k hk
      rw [hmember, hreserved k hk, Option.map_none, Option.or_none]
    -- Each part of the draft is read back from what was written for it.
    have hand : (ofMembers {} members).and =
        .ok (f.and.map (mapFields fun c => Constraints.ofOperand c.toOperand)) := by
      rw [ofMembers_part Draft.enter_and, hcombinator _ (by decide), lookup_combinatorMembers_and]
      exact ofList_written .and fun g hg => hpart g (mem_parts.2 (Or.inl hg))
    have hor : (ofMembers {} members).or =
        .ok (f.or.map (mapFields fun c => Constraints.ofOperand c.toOperand)) := by
      rw [ofMembers_part Draft.enter_or, hcombinator _ (by decide), lookup_combinatorMembers_or]
      exact ofList_written .or fun g hg => hpart g (mem_parts.2 (Or.inr (Or.inl hg)))
    have hnot : (ofMembers {} members).not =
        .ok (f.not.map (mapFields fun c => Constraints.ofOperand c.toOperand)) := by
      rw [ofMembers_part Draft.enter_not, hcombinator _ (by decide), lookup_combinatorMembers_not]
      cases hf : f.not with
      | none => rfl
      | some g =>
        -- A written filter is an object, and so it is not taken for an absent one.
        have hnull : g.toValue ≠ .null := by
          rw [toValue_eq]
          exact nofun
        rw [Option.map_some, Option.map_some, Option.getD_some, if_neg hnull,
          hpart g (mem_parts.2 (Or.inr (Or.inr hf)))]
        rfl
    have hfields : (ofMembers {} members).fields =
        f.fields.mapValues fun c => Constraints.ofOperand c.toOperand := by
      apply KeyMap.ext_get?
      intro name
      rw [get?_ofMembers, KeyMap.get?_mapValues]
      split_ifs with hname
      · rw [hreserved name hname]
        rfl
      · have hnone : f.combinatorMembers.lookup name = none := by
          apply lookup_eq_none_of_ne
          intro e he heq
          exact hname (heq ▸ mem_combinatorKeys_of_mem he)
        rw [hmember, hnone, Option.none_or, Option.map_map]
        exact Option.or_none
    rw [toValue_eq, ofValue, hms, Draft.finish, hand, hor, hnot, hfields, mapFields_eq]
    rfl

/-- The filters that come back from the wire unchanged are those in wire normal form. -/
theorem ofValue_toValue_iff (f : Filter) : ofValue f.toValue = .ok f ↔ f.WireNormal := by
  constructor
  · intro h
    exact wireNormal_of_ofValue f.toValue h
  · intro h
    have hnames : ∀ e ∈ f.walk, e.1 ∉ combinatorKeys := fun e he => (h e he).1
    have hoperands : ∀ e ∈ f.walk, Constraints.ofOperand e.2.toOperand = e.2 := fun e he =>
      (Constraints.ofOperand_toOperand_iff e.2).2 (h e he).2
    rw [ofValue_toValue hnames, mapFields_eq_self hoperands]

end Filter

end ListQuery
