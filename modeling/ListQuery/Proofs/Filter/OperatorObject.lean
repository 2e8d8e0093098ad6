import ListQuery.Proofs.Filter.Operand

/-!
# Operator objects

An operand is an operator object or a value to compare with. It is an operator object if every
operator in it has an operand that fits, so that one misfit takes the others with it, and if some
operator is left when absent and vacuous ones are passed over. Keys that are no operators do not
count. Both conditions are stated here on the members of the object, operator by operator, without
the readers of operands.

## Main definitions

- `Constraints.Fits`: the operands that fit an operator;
- `Constraints.Remains`: the constraints that are left of the members of an object;
- `Constraints.IsOperatorObject`: the members that make an operator object.

## Main statements

- `Constraints.ofMembers?_eq_some_iff`: what is read from members, all of which fit;
- `Constraints.mem_toList_of_ofMembers?`: it holds the constraints that are left;
- `Constraints.ofOperand_tells_apart`: operator objects and values to compare with.
-/

namespace ListQuery

open Json (Value)

namespace Constraints

/-! ## §1 Operator objects -/

/-- Whether a value fits the operator with this key as an operand, `null` being no operand. A
    comparison takes any value, and a key that is no operator may hold any. -/
def Fits : String → Value → Prop
  | "$in", v | "$nin", v => v = .null ∨ ∃ items, v = .array items
  | "$like", v | "$ilike", v => v = .null ∨ ∃ pattern, v = .string pattern
  | "$between", v => v = .null ∨ ∃ low high, v = .array [low, high]
  | "$exists", v | "$null", v => v = .null ∨ ∃ b, v = .bool b
  | _, _ => True

/-- Whether a constraint is left of the members of an object: its operand is what they hold under its
    key, and it is not vacuous. -/
def Remains (members : List (String × Value)) (k : Constraint) : Prop :=
  Value.member? k.key members = some k.operand ∧ k.isVacuous = false

/-- The members that make an operator object. -/
structure IsOperatorObject (members : List (String × Value)) : Prop where
  fits : ∀ key v, Value.member? key members = some v → Fits key v
  remains : ∃ k, Remains members k

/-! ## §2 Operands of a shape -/

theorem listOperand?_eq_some_iff (v : Value) (vs : List Value) :
    listOperand? v = some vs ↔ v = .array vs := by
  cases v <;> simp [listOperand?]

theorem patternOperand?_eq_some_iff (v : Value) (p : String) :
    patternOperand? v = some p ↔ v = .string p := by
  cases v <;> simp [patternOperand?]

theorem rangeOperand?_eq_some_iff (v : Value) (range : Value × Value) :
    rangeOperand? v = some range ↔ v = .array [range.1, range.2] := by
  unfold rangeOperand?
  split
  · simp [Prod.ext_iff]
  · rename_i hshape
    exact ⟨nofun, fun h => absurd h (hshape _ _)⟩

theorem truthOperand?_eq_some_iff (v : Value) (b : Bool) :
    truthOperand? v = some b ↔ v = .bool b := by
  cases v <;> simp [truthOperand?]

/-- An operand under a key is read if it has the shape, or is no operand, or if there is none. -/
theorem shaped?_eq_some_iff {α : Type} {shape : Value → Option α} {write : α → Value}
    (hshape : ∀ v a, shape v = some a ↔ v = write a) (hnull : ∀ a, write a ≠ .null)
    {key : String} {members : List (String × Value)} {o : Option α} :
    shaped? shape key members = some o ↔
      (∀ v, Value.member? key members = some v → v = .null ∨ ∃ a, v = write a) ∧
        (Value.member? key members).bind shape = o := by
  unfold shaped?
  split
  · rename_i hmember
    simp [hmember]
  · rename_i hmember
    have hnone : shape .null = none :=
      Option.eq_none_iff_forall_ne_some.2 fun a h => hnull a ((hshape .null a).1 h).symm
    simp [hmember, hnone]
  · rename_i v hne hmember
    simp only [hmember, Option.some.injEq, forall_eq', ← hshape, Option.bind_some]
    cases hv : shape v with
    | none => simp [show v ≠ .null from hne]
    | some a => simp

/-- The constraints that members hold under the keys of their operators, an operand of another shape
    than its operator's being passed over. -/
def ofShapes (members : List (String × Value)) : Constraints where
  eq := Value.member? "$eq" members
  ne := Value.member? "$ne" members
  gt := Value.member? "$gt" members
  gte := Value.member? "$gte" members
  lt := Value.member? "$lt" members
  lte := Value.member? "$lte" members
  oneOf := (Value.member? "$in" members).bind listOperand?
  noneOf := (Value.member? "$nin" members).bind listOperand?
  like := (Value.member? "$like" members).bind patternOperand?
  ilike := (Value.member? "$ilike" members).bind patternOperand?
  between := (Value.member? "$between" members).bind rangeOperand?
  present := (Value.member? "$exists" members).bind truthOperand?
  null := (Value.member? "$null" members).bind truthOperand?

theorem mem_toList_ofShapes (members : List (String × Value)) (k : Constraint) :
    k ∈ (ofShapes members).toList ↔ Value.member? k.key members = some k.operand := by
  cases k <;>
    simp [toList, ofShapes, Constraint.key, Constraint.operand, Option.bind_eq_some_iff,
      listOperand?_eq_some_iff, patternOperand?_eq_some_iff, rangeOperand?_eq_some_iff,
      truthOperand?_eq_some_iff]

/-- What is read from members, all of which fit. -/
theorem ofMembers?_eq_some_iff {members : List (String × Value)} {c : Constraints} :
    ofMembers? members = some c ↔
      (∀ key v, Value.member? key members = some v → Fits key v) ∧
        (ofShapes members).dropVacuous = c := by
  unfold ofMembers?
  simp only [Option.bind_eq_bind, Option.bind_eq_some_iff, Option.pure_def, Option.some.injEq]
  constructor
  · rintro ⟨oneOf, hin, noneOf, hnin, like, hlike, ilike, hilike, between, hbetween, present,
      hexists, null, hnull, rfl⟩
    obtain ⟨inFits, rfl⟩ := (shaped?_eq_some_iff listOperand?_eq_some_iff nofun).1 hin
    obtain ⟨ninFits, rfl⟩ := (shaped?_eq_some_iff listOperand?_eq_some_iff nofun).1 hnin
    obtain ⟨likeFits, rfl⟩ := (shaped?_eq_some_iff patternOperand?_eq_some_iff nofun).1 hlike
    obtain ⟨ilikeFits, rfl⟩ := (shaped?_eq_some_iff patternOperand?_eq_some_iff nofun).1 hilike
    obtain ⟨betweenFits, rfl⟩ := (shaped?_eq_some_iff rangeOperand?_eq_some_iff nofun).1 hbetween
    obtain ⟨existsFits, rfl⟩ := (shaped?_eq_some_iff truthOperand?_eq_some_iff nofun).1 hexists
    obtain ⟨nullFits, rfl⟩ := (shaped?_eq_some_iff truthOperand?_eq_some_iff nofun).1 hnull
    refine ⟨fun key v hv => ?_, rfl⟩
    unfold Fits
    split
    · exact inFits v hv
    · exact ninFits v hv
    · exact likeFits v hv
    · exact ilikeFits v hv
    · exact (betweenFits v hv).imp_right fun ⟨range, h⟩ => ⟨range.1, range.2, h⟩
    · exact existsFits v hv
    · exact nullFits v hv
    · trivial
  · rintro ⟨hfits, rfl⟩
    -- The conditions on the seven operands that have a shape are those of `Fits`.
    refine ⟨_, (shaped?_eq_some_iff listOperand?_eq_some_iff nofun).2 ⟨hfits "$in", rfl⟩,
      _, (shaped?_eq_some_iff listOperand?_eq_some_iff nofun).2 ⟨hfits "$nin", rfl⟩,
      _, (shaped?_eq_some_iff patternOperand?_eq_some_iff nofun).2 ⟨hfits "$like", rfl⟩,
      _, (shaped?_eq_some_iff patternOperand?_eq_some_iff nofun).2 ⟨hfits "$ilike", rfl⟩,
      _, (shaped?_eq_some_iff rangeOperand?_eq_some_iff nofun).2 ⟨fun v hv => ?_, rfl⟩,
      _, (shaped?_eq_some_iff truthOperand?_eq_some_iff nofun).2 ⟨hfits "$exists", rfl⟩,
      _, (shaped?_eq_some_iff truthOperand?_eq_some_iff nofun).2 ⟨hfits "$null", rfl⟩, rfl⟩
    have hbetween : v = .null ∨ ∃ low high, v = .array [low, high] := hfits "$between" v hv
    exact hbetween.imp_right fun ⟨low, high, h⟩ => ⟨(low, high), h⟩

/-- What is read from members holds the constraints that are left of them. -/
theorem mem_toList_of_ofMembers? {members : List (String × Value)} {c : Constraints}
    (h : ofMembers? members = some c) (k : Constraint) : k ∈ c.toList ↔ Remains members k := by
  obtain ⟨-, rfl⟩ := ofMembers?_eq_some_iff.1 h
  rw [toList_dropVacuous, List.mem_filter, mem_toList_ofShapes, Remains, Bool.not_eq_true']

/-! ## §3 Operands of fields -/

theorem isEmpty_of_ofMembers? {members : List (String × Value)} {c : Constraints}
    (h : ofMembers? members = some c) : c.isEmpty = false ↔ ∃ k, Remains members k := by
  simp only [isEmpty, List.all_eq_false, mem_toList_of_ofMembers? h, Bool.not_eq_true]
  exact exists_congr fun k => and_iff_left_of_imp And.right

/-- An operator object is read as what it says. -/
theorem IsOperatorObject.ofMembers? {members : List (String × Value)} (h : IsOperatorObject members) :
    Constraints.ofMembers? members = some (ofOperand (.object members)) := by
  have hread := ofMembers?_eq_some_iff.2 ⟨h.fits, rfl⟩
  have hempty := (isEmpty_of_ofMembers? hread).2 h.remains
  rw [ofOperand_object, hread]
  exact congrArg some (if_neg (by rw [hempty]; decide)).symm

/-- An object that is no operator object is a value to compare with. -/
theorem ofOperand_of_not_isOperatorObject {members : List (String × Value)}
    (h : ¬ IsOperatorObject members) : ofOperand (.object members) = equalTo (.object members) := by
  rw [ofOperand_object]
  cases hread : Constraints.ofMembers? members with
  | none => rfl
  | some c =>
    cases hempty : c.isEmpty with
    | true => exact if_pos hempty
    | false =>
      have hfits := (ofMembers?_eq_some_iff.1 hread).1
      exact absurd ⟨hfits, (isEmpty_of_ofMembers? hread).1 hempty⟩ h

/-- No member of an object is the object itself. -/
theorem member?_ne_self {key : String} {members : List (String × Value)} :
    Value.member? key members ≠ some (.object members) := by
  intro h
  have hlt := List.sizeOf_lt_of_mem (mem_of_member? h)
  simp only [Prod.mk.sizeOf_spec, Value.object.sizeOf_spec] at hlt
  omega

/-- Operator objects are never read as a comparison with the object. -/
theorem IsOperatorObject.ofOperand_ne {members : List (String × Value)}
    (h : IsOperatorObject members) : ofOperand (.object members) ≠ equalTo (.object members) := by
  intro heq
  have hmem : Constraint.eq (.object members) ∈ (ofOperand (.object members)).toList := by
    rw [heq, toList_equalTo]
    exact List.mem_singleton_self _
  exact member?_ne_self ((mem_toList_of_ofMembers? h.ofMembers? _).1 hmem).1

/-- **Operator objects and values to compare with are told apart exactly.** An operand is read as
    something else than a comparison with it if and only if it is an operator object, and then as the
    constraints that are left of its members. Constraints that constrain something are written as an
    operand from which they come back without the vacuous ones. -/
theorem ofOperand_tells_apart :
    (∀ v, ofOperand v ≠ equalTo v ↔ ∃ members, v = .object members ∧ IsOperatorObject members) ∧
      (∀ members, IsOperatorObject members →
        ∀ k, k ∈ (ofOperand (.object members)).toList ↔ Remains members k) ∧
      ∀ c : Constraints, c.isEmpty = false → ofOperand c.toOperand = c.dropVacuous := by
  refine ⟨fun v => ⟨fun hne => ?_, ?_⟩, fun members h => mem_toList_of_ofMembers? h.ofMembers?,
    fun c => ofOperand_toOperand⟩
  · by_cases hobject : v.isObject = true
    · cases v with
      | object members =>
        exact ⟨members, rfl,
          Classical.byContradiction fun h => hne (ofOperand_of_not_isOperatorObject h)⟩
      | _ => contradiction
    · exact absurd (ofOperand_of_not_object (by simpa using hobject)) hne
  · rintro ⟨members, rfl, h⟩
    exact h.ofOperand_ne

/-- A comparison beside a vacuous list, a pattern that is no operand, and a key of no operator. -/
def mixedMembers : List (String × Value) := [
  ("$gte", .ofInt64 18), ("$in", .array []), ("$like", .null), ("colour", .string "red")]

theorem ofOperand_tells_apart_mixedMembers :
    IsOperatorObject mixedMembers ∧
      ofOperand (.object mixedMembers) ≠ equalTo (.object mixedMembers) ∧
      (∀ k, k ∈ (ofOperand (.object mixedMembers)).toList ↔ Remains mixedMembers k) ∧
      ofOperand { eq := some (.object mixedMembers), like := some "" : Constraints }.toOperand =
        equalTo (.object mixedMembers) := by
  obtain ⟨hliteral, hremains, hwritten⟩ := ofOperand_tells_apart
  have h : IsOperatorObject mixedMembers := by
    refine ⟨fun key v hv => ?_, .gte (.ofInt64 18), by decide, by decide⟩
    have hmem := mem_of_member? hv
    simp only [mixedMembers, List.mem_cons, List.not_mem_nil, or_false, Prod.mk.injEq] at hmem
    rcases hmem with ⟨rfl, rfl⟩ | ⟨rfl, rfl⟩ | ⟨rfl, rfl⟩ | ⟨rfl, rfl⟩ <;> simp [Fits]
  refine ⟨h, (hliteral _).2 ⟨_, rfl, h⟩, hremains _ h, ?_⟩
  exact hwritten { eq := some (.object mixedMembers), like := some "" } (by decide)

end Constraints

end ListQuery
