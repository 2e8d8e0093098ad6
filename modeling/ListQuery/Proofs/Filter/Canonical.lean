import ListQuery.Proofs.Filter.OperatorObject
import ListQuery.Proofs.Filter.RoundTrip
import ListQuery.Proofs.Json.Canonical
import ListQuery.Proofs.Json.Rendering

/-!
# Filters of values in canonical form

A filter that is read from a value holds operands of this value and nothing else. So it is *canonical*
if the value is in canonical form, that is, all its operands are; and then the value that it is
written as is in canonical form too, and its document denotes this value.

Writing may nest one level deeper than what was read: an object that was compared with as it stood is
written below its operator.

## Main statements

- `Filter.origin_of_ofValue`: where the parts and fields of a filter come from;
- `Filter.canonical_of_ofValue`: filters that are read from values in canonical form are canonical;
- `Filter.Canonical.toValue`, `Filter.Canonical.document`: what canonical filters are written as;
- `Filter.nesting_toValue_le`: how deep a filter that was read is written.
-/

namespace ListQuery

open Json (Value)

namespace Constraints

/-! ## §1 Operands -/

/-- Whether every operand is a value in canonical form. -/
def Canonical (c : Constraints) : Prop :=
  ∀ k ∈ c.toList, k.operand.Canonical

instance (c : Constraints) : Decidable c.Canonical :=
  inferInstanceAs (Decidable (∀ k ∈ c.toList, _))

/-- A constraint that an operator object sets has the member under its key for its operand. -/
theorem member?_of_mem_ofMembers? {members : List (String × Value)} {c : Constraints}
    (h : ofMembers? members = some c) {k : Constraint} (hk : k ∈ c.toList) :
    Value.member? k.key members = some k.operand :=
  ((mem_toList_of_ofMembers? h k).1 hk).1

/-- An object without operators is a value to compare with. -/
theorem ofOperand_of_no_operator {members : List (String × Value)}
    (h : ∀ k : Constraint, Value.member? k.key members = none) :
    ofOperand (.object members) = equalTo (.object members) := by
  refine ofOperand_of_not_isOperatorObject fun hoperators => ?_
  obtain ⟨k, hk, -⟩ := hoperators.remains
  rw [h k] at hk
  cases hk

/-- What is read from an operand compares with the operand as it stands or with its members. -/
theorem mem_ofOperand {v : Value} {k : Constraint} (hk : k ∈ (ofOperand v).toList) :
    k = .eq v ∨ ∃ members, v = .object members ∧ (k.key, k.operand) ∈ members := by
  have hequal : k ∈ (equalTo v).toList → k = .eq v := by simp
  by_cases hobject : v.isObject = true
  · cases v with
    | object members =>
      rw [ofOperand_object] at hk
      split at hk
      · rename_i c hread
        split at hk
        · exact Or.inl (hequal hk)
        · exact Or.inr ⟨members, rfl, mem_of_member? (member?_of_mem_ofMembers? hread hk)⟩
      · exact Or.inl (hequal hk)
    | _ => exact absurd hobject Bool.false_ne_true
  · rw [ofOperand_of_not_object (by simpa using hobject)] at hk
    exact Or.inl (hequal hk)

theorem canonical_ofOperand {v : Value} (hv : v.Canonical) : (ofOperand v).Canonical := by
  intro k hk
  rcases mem_ofOperand hk with rfl | ⟨members, rfl, hmem⟩
  · exact hv
  · exact (Value.canonical_object_iff.1 hv).2 _ hmem

/-- An operand is written as the bare value of an equality or as an object of operands. -/
theorem toOperand_cases (c : Constraints) :
    Constraint.eq c.toOperand ∈ c.toList ∨ c.toOperand = .object c.operators := by
  unfold toOperand
  split
  · rename_i v heq
    split
    · left
      simp only [toList, heq, Option.map_some, Option.toList_some, List.mem_append,
        List.mem_singleton, true_or]
    · exact Or.inr rfl
  · exact Or.inr rfl

/-- An object to compare with is written below its operator. -/
theorem toOperand_equalTo_object (members : List (String × Value)) :
    (equalTo (.object members)).toOperand = .object [("$eq", .object members)] := by
  have hoperators : (equalTo (.object members)).operators = [("$eq", .object members)] := by
    rw [operators, toList_equalTo]
    rfl
  rw [← hoperators]
  simp [toOperand, equalTo, Value.isObject]

theorem mem_operators {c : Constraints} {m : String × Value} (h : m ∈ c.operators) :
    ∃ k ∈ c.toList, m = (k.key, k.operand) := by
  rw [operators_eq_enterAll] at h
  rcases mem_of_mem_enterAll h with h | h
  · obtain ⟨k, hk, rfl⟩ := List.mem_map.1 h
    exact ⟨k, hk, rfl⟩
  · exact absurd h List.not_mem_nil

theorem Canonical.toOperand {c : Constraints} (h : c.Canonical) : c.toOperand.Canonical := by
  rcases c.toOperand_cases with hbare | hobject
  · exact h _ hbare
  · rw [hobject]
    refine Value.canonical_object_iff.2 ⟨c.keysIncrease_operators, fun m hm => ?_⟩
    obtain ⟨k, hk, rfl⟩ := mem_operators hm
    exact h k hk

/-- An operand that was read is written at most one level deeper. -/
theorem nesting_toOperand_le (v : Value) : (ofOperand v).toOperand.nesting ≤ v.nesting + 1 := by
  have hoperand : ∀ k ∈ (ofOperand v).toList, k.operand.nesting ≤ v.nesting := by
    intro k hk
    rcases mem_ofOperand hk with rfl | ⟨members, rfl, hmem⟩
    · exact le_refl _
    · exact Nat.le_succ_of_le (Value.nestingMembers_le_iff.1 (le_refl _) _ hmem)
  rcases (ofOperand v).toOperand_cases with hbare | hobject
  · exact Nat.le_succ_of_le (hoperand _ hbare)
  · rw [hobject]
    refine Nat.succ_le_succ (Value.nestingMembers_le_iff.2 fun m hm => ?_)
    obtain ⟨k, hk, rfl⟩ := mem_operators hm
    exact hoperand k hk

end Constraints

namespace Filter

/-! ## §2 Where the parts of a filter come from -/

/-- What the parts and the fields of a filter are read from, among the members of an object. -/
structure Origin (members : List (String × Value)) (f : Filter) : Prop where
  and : ∀ g ∈ f.and, ∃ vs, ("$and", Value.array vs) ∈ members ∧ ∃ v ∈ vs, ofValue v = .ok g
  or : ∀ g ∈ f.or, ∃ vs, ("$or", Value.array vs) ∈ members ∧ ∃ v ∈ vs, ofValue v = .ok g
  not : ∀ g ∈ f.not, ∃ v, ("$not", v) ∈ members ∧ ofValue v = .ok g
  fields : ∀ e ∈ f.fields.entries, ∃ v, (e.1, v) ∈ members ∧ e.2 = Constraints.ofOperand v

theorem exists_of_mem_ofItems {vs : List Value} {fs : List Filter} (h : ofItems vs = .ok fs)
    {g : Filter} (hg : g ∈ fs) : ∃ v ∈ vs, ofValue v = .ok g := by
  induction vs generalizing fs with
  | nil =>
    obtain ⟨⟩ := h
    exact absurd hg List.not_mem_nil
  | cons v rest ih =>
    rw [ofItems] at h
    obtain ⟨f, hf, h⟩ := bind_eq_ok.1 h
    obtain ⟨fs', hfs, h⟩ := bind_eq_ok.1 h
    rw [← Except.ok.inj h] at hg
    rcases List.mem_cons.1 hg with rfl | hg
    · exact ⟨v, List.mem_cons_self, hf⟩
    · obtain ⟨w, hw, hread⟩ := ih hfs hg
      exact ⟨w, List.mem_cons_of_mem v hw, hread⟩

theorem exists_of_mem_ofList {b : Combinator} {key : String} {members : List (String × Value)}
    {fs : List Filter} (h : ((Value.member? key members).map (ofList b)).getD (.ok []) = .ok fs)
    {g : Filter} (hg : g ∈ fs) :
    ∃ vs, (key, Value.array vs) ∈ members ∧ ∃ v ∈ vs, ofValue v = .ok g := by
  cases hmember : Value.member? key members with
  | none =>
    rw [hmember] at h
    obtain ⟨⟩ := h
    exact absurd hg List.not_mem_nil
  | some v =>
    rw [hmember, Option.map_some, Option.getD_some] at h
    cases v with
    | null =>
      obtain ⟨⟩ := h
      exact absurd hg List.not_mem_nil
    | array vs =>
      rw [ofList] at h
      exact ⟨vs, mem_of_member? hmember, exists_of_mem_ofItems (mapError_eq_ok.1 h) hg⟩
    | _ => exact nomatch h

/-- A filter is read from an object, and its parts and fields from the members. -/
theorem origin_of_ofValue {v : Value} {f : Filter} (h : ofValue v = .ok f) :
    ∃ members, v = .object members ∧ f.Origin members := by
  cases v with
  | object members =>
    refine ⟨members, rfl, ?_⟩
    rw [ofValue] at h
    obtain ⟨and, hand, h⟩ := bind_eq_ok.1 h
    obtain ⟨not, hnot, h⟩ := bind_eq_ok.1 h
    obtain ⟨or, hor, h⟩ := bind_eq_ok.1 h
    rw [ofMembers_part Draft.enter_and] at hand
    rw [ofMembers_part Draft.enter_or] at hor
    rw [ofMembers_part Draft.enter_not] at hnot
    rw [← Except.ok.inj h]
    constructor
    · exact fun g hg => exists_of_mem_ofList hand hg
    · exact fun g hg => exists_of_mem_ofList hor hg
    · intro g hg
      cases hmember : Value.member? "$not" members with
      | none =>
        rw [hmember] at hnot
        obtain ⟨⟩ := hnot
        exact absurd hg (Option.not_mem_none g)
      | some v =>
        rw [hmember, Option.map_some, Option.getD_some] at hnot
        split_ifs at hnot
        · obtain ⟨⟩ := hnot
          exact absurd hg (Option.not_mem_none g)
        · obtain ⟨g', hread, rfl⟩ := map_eq_ok.1 hnot
          obtain rfl := Option.mem_some.1 hg
          exact ⟨v, mem_of_member? hmember, mapError_eq_ok.1 hread⟩
    · intro e he
      -- A map holds its entries, so the field is found by look-up.
      have hget : (ofMembers {} members).fields.get? e.1 = some e.2 := KeyMap.get?_of_mem he
      rw [get?_ofMembers] at hget
      split_ifs at hget
      · cases hget
      · rw [show ({} : Draft).fields.get? e.1 = none from rfl, Option.or_none] at hget
        obtain ⟨v, hmember, hread⟩ := Option.map_eq_some_iff.1 hget
        exact ⟨v, mem_of_member? hmember, hread.symm⟩
  | _ => cases h

theorem Origin.exists_of_mem_parts {members : List (String × Value)} {f g : Filter}
    (h : f.Origin members) (hg : g ∈ f.parts) :
    ∃ m ∈ members, ∃ v, ofValue v = .ok g ∧ (m.2 = v ∨ ∃ vs, m.2 = .array vs ∧ v ∈ vs) := by
  rcases mem_parts.1 hg with hg | hg | hg
  · obtain ⟨vs, hmem, v, hv, hread⟩ := h.and g hg
    exact ⟨_, hmem, v, hread, Or.inr ⟨vs, rfl, hv⟩⟩
  · obtain ⟨vs, hmem, v, hv, hread⟩ := h.or g hg
    exact ⟨_, hmem, v, hread, Or.inr ⟨vs, rfl, hv⟩⟩
  · obtain ⟨v, hmem, hread⟩ := h.not g hg
    exact ⟨_, hmem, v, hread, Or.inl rfl⟩

/-! ## §3 Canonical filters -/

/-- Whether every operand in the tree is a value in canonical form. -/
def Canonical (f : Filter) : Prop :=
  ∀ e ∈ f.walk, e.2.Canonical

instance (f : Filter) : Decidable f.Canonical :=
  inferInstanceAs (Decidable (∀ e ∈ f.walk, _))

theorem Canonical.part {f g : Filter} (h : f.Canonical) (hg : g ∈ f.parts) : g.Canonical :=
  fun e he => h e (mem_walk.2 (Or.inr ⟨g, hg, he⟩))

/-- A filter that is read from a value in canonical form is canonical. -/
theorem canonical_of_ofValue {v : Value} {f : Filter} (hv : v.Canonical) (h : ofValue v = .ok f) :
    f.Canonical := by
  induction f using Filter.induction generalizing v with
  | node f ih =>
    obtain ⟨members, rfl, horigin⟩ := origin_of_ofValue h
    have hmember : ∀ m ∈ members, m.2.Canonical := (Value.canonical_object_iff.1 hv).2
    intro e he
    rcases mem_walk.1 he with he | ⟨g, hg, he⟩
    · obtain ⟨v, hmem, heq⟩ := horigin.fields e he
      rw [heq]
      exact Constraints.canonical_ofOperand (hmember _ hmem)
    · obtain ⟨m, hm, v, hread, rfl | ⟨vs, hvs, hv⟩⟩ := horigin.exists_of_mem_parts hg
      · exact ih g hg (hmember m hm) hread e he
      · exact ih g hg (Value.canonical_array_iff.1 (hvs ▸ hmember m hm) v hv) hread e he

theorem mem_combinatorMembers {f : Filter} {m : String × Value} (h : m ∈ f.combinatorMembers) :
    m = ("$and", .array (f.and.map toValue)) ∨ m = ("$or", .array (f.or.map toValue)) ∨
      ∃ g ∈ f.not, m = ("$not", g.toValue) := by
  simp only [combinatorMembers, List.mem_append, List.mem_map, Option.mem_toList] at h
  rcases h with (h | h) | ⟨g, hg, rfl⟩
  · split_ifs at h
    · exact absurd h List.not_mem_nil
    · exact Or.inl (List.mem_singleton.1 h)
  · split_ifs at h
    · exact absurd h List.not_mem_nil
    · exact Or.inr (Or.inl (List.mem_singleton.1 h))
  · exact Or.inr (Or.inr ⟨g, hg, rfl⟩)

/-- What a canonical filter is written as is a value in canonical form. -/
theorem Canonical.toValue {f : Filter} (h : f.Canonical) : f.toValue.Canonical := by
  induction f using Filter.induction with
  | node f ih =>
    have hpart : ∀ g ∈ f.parts, g.toValue.Canonical := fun g hg => ih g hg (h.part hg)
    have harray : ∀ fs : List Filter, (∀ g ∈ fs, g ∈ f.parts) →
        (Value.array (fs.map Filter.toValue)).Canonical := by
      intro fs hfs
      refine Value.canonical_array_iff.2 (List.forall_mem_map.2 fun g hg => hpart g (hfs g hg))
    rw [toValue_eq]
    refine Value.canonical_object_iff.2 ⟨KeysIncrease.enterAll List.Pairwise.nil _, fun m hm => ?_⟩
    rcases mem_of_mem_enterAll hm with hm | hm
    · rcases List.mem_append.1 hm with hm | hm
      · rcases mem_combinatorMembers hm with rfl | rfl | ⟨g, hg, rfl⟩
        · exact harray f.and fun g hg => mem_parts.2 (Or.inl hg)
        · exact harray f.or fun g hg => mem_parts.2 (Or.inr (Or.inl hg))
        · exact hpart g (mem_parts.2 (Or.inr (Or.inr hg)))
      · obtain ⟨e, he, rfl⟩ := List.mem_map.1 hm
        exact (h e (mem_walk.2 (Or.inl he))).toOperand
    · exact absurd hm List.not_mem_nil

/-! ## §4 Documents of canonical filters -/

/-- The members that the document of a filter lists for its combinators. -/
def documentMembers (f : Filter) : List (String × Value) :=
  (if f.and.isEmpty then [] else [("$and", .array (f.and.map document))]) ++
    (if f.or.isEmpty then [] else [("$or", .array (f.or.map document))]) ++
    f.not.toList.map fun g => ("$not", g.document)

theorem document_eq (f : Filter) : f.document = .object (f.documentMembers ++ f.fieldMembers) := by
  obtain ⟨and, or, not, fields⟩ := f
  unfold documentMembers fieldMembers
  cases not <;> simp only [Filter.document, documents_eq_map] <;> rfl

/-- The document of a canonical filter denotes the value that the filter is written as. -/
theorem Canonical.document {f : Filter} (h : f.Canonical) : f.document.canonical = f.toValue := by
  induction f using Filter.induction with
  | node f ih =>
    have hpart : ∀ g ∈ f.parts, g.document.canonical = g.toValue := fun g hg => ih g hg (h.part hg)
    have harray : ∀ fs : List Filter, (∀ g ∈ fs, g ∈ f.parts) →
        (Value.array (fs.map Filter.document)).canonical = .array (fs.map Filter.toValue) := by
      intro fs hfs
      rw [Value.canonical, Value.canonicalItems_eq_map, List.map_map]
      exact congrArg _ (List.map_congr_left fun g hg => hpart g (hfs g hg))
    have hand := harray f.and fun g hg => mem_parts.2 (Or.inl hg)
    have hor := harray f.or fun g hg => mem_parts.2 (Or.inr (Or.inl hg))
    have hnot : ∀ g ∈ f.not, g.document.canonical = g.toValue := fun g hg =>
      hpart g (mem_parts.2 (Or.inr (Or.inr hg)))
    have hfields : f.fieldMembers.map (fun m => (m.1, m.2.canonical)) = f.fieldMembers := by
      refine map_eq_self_iff.2 (List.forall_mem_map.2 fun e he => ?_)
      have hoperand : e.2.toOperand.canonical = e.2.toOperand :=
        (h e (mem_walk.2 (Or.inl he))).toOperand
      rw [hoperand]
    have hcombinators : f.documentMembers.map (fun m => (m.1, m.2.canonical)) =
        f.combinatorMembers := by
      unfold documentMembers combinatorMembers
      rw [List.map_append, List.map_append, apply_ite (List.map _), apply_ite (List.map _),
        List.map_singleton, List.map_singleton, hand, hor, List.map_map]
      congr 1
      refine List.map_congr_left fun g hg => ?_
      show ("$not", g.document.canonical) = _
      rw [hnot g (Option.mem_toList.1 hg)]
    rw [document_eq, toValue_eq, Value.canonical_object, List.map_append, hcombinators, hfields]

/-! ## §5 Nesting -/

/-- A filter that was read is written at most one level deeper. -/
theorem nesting_toValue_le {v : Value} {f : Filter} (h : ofValue v = .ok f) :
    f.toValue.nesting ≤ v.nesting + 1 := by
  induction f using Filter.induction generalizing v with
  | node f ih =>
    obtain ⟨members, rfl, horigin⟩ := origin_of_ofValue h
    have hmember : ∀ {key w}, (key, w) ∈ members → w.nesting ≤ Value.nestingMembers members :=
      fun hmem => Value.nestingMembers_le_iff.1 (le_refl _) _ hmem
    -- A list is written for a list that is as deep up to the one level.
    have harray : ∀ (key : String) (fs : List Filter), (∀ g ∈ fs, g ∈ f.parts) →
        (∀ g ∈ fs, ∃ vs, (key, Value.array vs) ∈ members ∧ ∃ v ∈ vs, ofValue v = .ok g) →
        (Value.array (fs.map Filter.toValue)).nesting ≤ Value.nestingMembers members + 1 := by
      intro key fs hfs hread
      refine Nat.succ_le_succ (Value.nestingItems_le_iff.2 (List.forall_mem_map.2 fun g hg => ?_))
      obtain ⟨vs, hmem, w, hw, hg'⟩ := hread g hg
      have hitem : w.nesting ≤ Value.nestingItems vs :=
        Value.nestingItems_le_iff.1 (le_refl _) w hw
      exact (ih g (hfs g hg) hg').trans ((Nat.succ_le_succ hitem).trans (hmember hmem))
    rw [toValue_eq]
    refine Nat.succ_le_succ (Value.nestingMembers_le_iff.2 fun m hm => ?_)
    rcases mem_of_mem_enterAll hm with hm | hm
    · rcases List.mem_append.1 hm with hm | hm
      · rcases mem_combinatorMembers hm with rfl | rfl | ⟨g, hg, rfl⟩
        · exact harray _ f.and (fun g hg => mem_parts.2 (Or.inl hg)) horigin.and
        · exact harray _ f.or (fun g hg => mem_parts.2 (Or.inr (Or.inl hg))) horigin.or
        · obtain ⟨w, hmem, hread⟩ := horigin.not g hg
          exact (ih g (mem_parts.2 (Or.inr (Or.inr hg))) hread).trans
            (Nat.succ_le_succ (hmember hmem))
      · obtain ⟨e, he, rfl⟩ := List.mem_map.1 hm
        obtain ⟨w, hmem, heq⟩ := horigin.fields e he
        dsimp only
        rw [heq]
        exact (Constraints.nesting_toOperand_le w).trans (Nat.succ_le_succ (hmember hmem))
    · exact absurd hm List.not_mem_nil

end Filter

end ListQuery
