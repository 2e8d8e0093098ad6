import ListQuery.Condition.Operators
import ListQuery.Proofs.Filter.Operand

/-!
# Conditions of constraints

A constraint is one condition unless it is vacuous, and so a set of constraints has as many
conditions as constraints that are not. Without the vacuous ones its conditions are the same. After
the wire they are the same too, as long as there is any: constraints that are all vacuous have no
condition, and what they arrive as has one.

Every condition is a reference, a cast if the reference leads into a document and is compared with a
number or a truth value, and a suffix that depends on the constraint alone.

## Main definitions

- `Constraint.sample?`, `Constraint.suffix`, `Constraint.arguments`: the parts of a condition.

## Main statements

- `Constraint.condition?_eq`: the condition of a constraint by its parts;
- `Recorder.conditions_eq_nil_iff`: the constraints that have no condition are the vacuous ones;
- `Recorder.conditions_received`: the conditions of what constraints arrive as.
-/

namespace ListQuery

open Json (Value)

/-! ## §1 One constraint -/

/-- The cast that goes behind a reference to compare it with a sample. -/
def Reference.cast (ref : Reference) (sample? : Option Value) : String :=
  if ref.isDocument then
    match sample? with
    | some (.number _) => "::numeric"
    | some (.bool _) => "::boolean"
    | _ => ""
  else ""

theorem castReference_eq (ref : Reference) (v : Value) :
    castReference ref.text ref.isDocument v = ref.text ++ ref.cast (some v) := by
  unfold castReference Reference.cast
  cases ref.isDocument with
  | false => simp
  | true => cases v <;> simp

namespace Constraint

/-- The operand whose type a document reference is cast to: the operand of a comparison, or the
    lower end of a range. -/
def sample? : Constraint → Option Value
  | .eq v | .ne v | .gt v | .gte v | .lt v | .lte v | .between v _ => some v
  | .oneOf _ | .noneOf _ | .like _ | .ilike _ | .present _ | .null _ => none

/-- The condition behind the reference and its cast. -/
def suffix : Constraint → String
  | .eq .null | .present false | .null true => " IS NULL"
  | .ne .null | .present true | .null false => " IS NOT NULL"
  | .eq _ => " = ?"
  | .ne _ => " <> ?"
  | .gt _ => " > ?"
  | .gte _ => " >= ?"
  | .lt _ => " < ?"
  | .lte _ => " <= ?"
  | .oneOf _ => " IN ?"
  | .noneOf _ => " NOT IN ?"
  | .like _ => " LIKE ?"
  | .ilike _ => " ILIKE ?"
  | .between _ _ => " BETWEEN ? AND ?"

/-- The arguments of the condition. A list is one argument. -/
def arguments : Constraint → List Value
  | .eq .null | .ne .null | .present _ | .null _ => []
  | .eq v | .ne v | .gt v | .gte v | .lt v | .lte v => [v]
  | .oneOf vs | .noneOf vs => [.array vs]
  | .like p | .ilike p => [anywhere p]
  | .between low high => [low, high]

/-- The condition of a constraint that is not vacuous. -/
def condition (ref : Reference) (k : Constraint) : Atom :=
  ⟨ref.text ++ ref.cast k.sample? ++ k.suffix, k.arguments⟩

theorem cast_none (ref : Reference) : ref.cast none = "" := by
  unfold Reference.cast
  split <;> rfl

theorem cast_null (ref : Reference) : ref.cast (some .null) = "" := by
  unfold Reference.cast
  split <;> rfl

theorem nullTest_eq (ref : Reference) (isNull : Bool) :
    nullTest ref isNull =
      ⟨ref.text ++ "" ++ (if isNull then " IS NULL" else " IS NOT NULL"), []⟩ := by
  rw [nullTest, String.append_empty]

theorem comparison_eq (ref : Reference) (symbol : String) (v : Value) :
    comparison ref symbol v =
      ⟨ref.text ++ ref.cast (some v) ++ (" " ++ symbol ++ " ?"), [v]⟩ := by
  simp only [comparison, castReference_eq, String.append_assoc]

/-- The condition of a constraint by its parts: the reference, its cast and the suffix. -/
theorem condition?_eq (ref : Reference) (k : Constraint) :
    k.condition? ref = if k.isVacuous then none else some (k.condition ref) := by
  have htest (k : Constraint) (isNull : Bool) (hcast : ref.cast k.sample? = "")
      (hsuffix : k.suffix = if isNull then " IS NULL" else " IS NOT NULL")
      (harguments : k.arguments = []) : some (nullTest ref isNull) = some (k.condition ref) := by
    rw [nullTest_eq, condition, hcast, hsuffix, harguments]
  cases k with
  | eq v =>
    cases v with
    | null => exact htest (.eq .null) true (cast_null ref) rfl rfl
    | _ => exact congrArg some (comparison_eq ref "=" _)
  | ne v =>
    cases v with
    | null => exact htest (.ne .null) false (cast_null ref) rfl rfl
    | _ => exact congrArg some (comparison_eq ref "<>" _)
  | gt v => exact congrArg some (comparison_eq ref ">" v)
  | gte v => exact congrArg some (comparison_eq ref ">=" v)
  | lt v => exact congrArg some (comparison_eq ref "<" v)
  | lte v => exact congrArg some (comparison_eq ref "<=" v)
  | oneOf vs | noneOf vs | like p | ilike p =>
    simp only [condition?, condition, sample?, cast_none, String.append_empty]
    rfl
  | between low high =>
    simp only [condition?, castReference_eq]
    rfl
  | present b => cases b <;> exact htest (.present _) _ (cast_none ref) rfl rfl
  | null b => cases b <;> exact htest (.null _) _ (cast_none ref) rfl rfl

/-- The constraints without a condition are the vacuous ones. -/
theorem condition?_eq_none_iff (ref : Reference) (k : Constraint) :
    k.condition? ref = none ↔ k.isVacuous = true := by
  rw [condition?_eq]
  split <;> simp_all

end Constraint

/-! ## §2 All constraints on a field -/

namespace Recorder

theorem conditions_dropVacuous (r : Recorder) (path : String) (c : Constraints) :
    r.conditions path c.dropVacuous = r.conditions path c := by
  unfold conditions
  rw [Constraints.toList_dropVacuous, List.filterMap_filter]
  congr
  funext k
  cases hk : k.isVacuous with
  | false => rfl
  | true => exact ((Constraint.condition?_eq_none_iff _ k).2 hk).symm

/-- Constraints have no condition if and only if all of them are vacuous. -/
theorem conditions_eq_nil_iff (r : Recorder) (path : String) (c : Constraints) :
    r.conditions path c = [] ↔ c.isEmpty = true := by
  unfold conditions Constraints.isEmpty
  simp only [List.filterMap_eq_nil_iff, Constraint.condition?_eq_none_iff, List.all_eq_true]

/-- What constraints arrive as has the same conditions, except that constraints without any arrive
    as a comparison with the operator object that was written for them. -/
theorem conditions_received (r : Recorder) (path : String) (c : Constraints) :
    r.conditions path c.received =
      if c.isEmpty then [comparison (r.reference path) "=" (.object c.operators)]
      else r.conditions path c := by
  unfold Constraints.received
  split
  · rfl
  · exact r.conditions_dropVacuous path c

end Recorder

end ListQuery
