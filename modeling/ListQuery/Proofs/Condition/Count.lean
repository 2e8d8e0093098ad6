import ListQuery.Proofs.Condition.Operators
import ListQuery.Proofs.Condition.Traversal
import ListQuery.Proofs.Filter.RoundTrip
import Mathlib.Algebra.Ring.Nat

/-!
# The number of conditions of a filter

A recorder that counts the conditions it records gives what a recorder gives that does not count,
and its count is the number of constraints on the fields of the walk that are not vacuous
(`Recorder.run_apply_counting`). A filter that was decoded has no vacuous constraints, and at least
one constraint on every field, so that each of its constraints is recorded and none of its fields is
passed over (`Filter.count_of_ofValue`).

## Main definitions

- `Recorder.countingOps`: the operations of recorders that count conditions;
- `Constraints.effective`: the number of constraints that are not vacuous.
-/

namespace ListQuery

open Json (Value)

/-- The number of constraints that constrain something. -/
def Constraints.effective (c : Constraints) : Nat :=
  c.toList.countP fun k => !k.isVacuous

theorem Constraints.WireNormal.effective {c : Constraints} (h : c.WireNormal) :
    c.effective = c.toList.length := by
  apply List.countP_eq_length.2
  intro k hk
  rw [h.2 k hk]
  rfl

theorem Constraints.effective_pos {c : Constraints} (h : c.isEmpty = false) : 0 < c.effective := by
  unfold effective
  simpa [isEmpty, List.countP_pos_iff] using h

namespace Recorder

/-! ## §1 Counting -/

/-- Record a condition and count it. -/
def countCondition (r : Recorder) (a : Atom) : StateM Nat Recorder := do
  modify (· + 1)
  return r.condition a

/-- The operations of recorders, with every condition of a field counted that is recorded. -/
def countingOps : BuilderOps (StateM Nat) Recorder where
  field r path c := (r.conditions path c).foldlM countCondition r
  and r sub := pure (r.and sub)
  or r sub := pure (r.or sub)
  not r sub := pure (r.not sub)
  isolate r := pure r.isolated

theorem run_foldlM_countCondition (conditions : List Atom) (r : Recorder) (n : Nat) :
    (conditions.foldlM countCondition r).run n =
      (conditions.foldl condition r, n + conditions.length) := by
  induction conditions generalizing r n with
  | nil => rfl
  | cons a rest ih =>
    have hstep : ((a :: rest).foldlM countCondition r).run n =
        (rest.foldlM countCondition (r.condition a)).run (n + 1) := rfl
    rw [hstep, ih, List.foldl_cons, List.length_cons, Nat.add_assoc, Nat.add_comm 1]

/-- A field has one condition for every constraint that is not vacuous. -/
theorem length_conditions (r : Recorder) (path : String) (c : Constraints) :
    (r.conditions path c).length = c.effective := by
  unfold conditions Constraints.effective
  rw [List.length_filterMap_eq_countP]
  congr 1
  funext k
  rw [Bool.eq_iff_iff, Option.isSome_iff_ne_none, Ne, Constraint.condition?_eq_none_iff]
  simp

theorem run_field_counting (r : Recorder) (path : String) (c : Constraints) (n : Nat) :
    (countingOps.field r path c).run n = (r.field path c, n + c.effective) := by
  simp only [countingOps, field, run_foldlM_countCondition, length_conditions]

/-- Counting conditions is watching the fields and adding up what their constraints come to. -/
theorem countingOps_eq : countingOps = ops.watched fun n e => n + e.2.effective := by
  have hfield : countingOps.field = (ops.watched fun n e => n + e.2.effective).field := by
    funext r path c
    apply StateT.ext
    intro n
    rw [run_field_counting, BuilderOps.notes_field]
    simp only [ops, map_pure, List.foldl_cons, List.foldl_nil]
    rfl
  -- Combining records no condition of a field, so the other operations do not count.
  exact BuilderOps.ext hfield rfl rfl rfl rfl

/-- Counting changes nothing else, and the count grows by the constraints of the walk that are not
    vacuous. -/
theorem run_apply_counting (r : Recorder) (f : Filter) (n : Nat) :
    (f.apply countingOps r).run n =
      (r.apply f, n + (f.walk.map fun e => e.2.effective).sum) := by
  have hsum (entries : List (String × Constraints)) (n : Nat) :
      entries.foldl (fun n e => n + e.2.effective) n =
        n + (entries.map fun e => e.2.effective).sum := by
    induction entries generalizing n with
    | nil => rfl
    | cons e rest ih => rw [List.foldl_cons, ih, List.map_cons, List.sum_cons, Nat.add_assoc]
  rw [countingOps_eq, Filter.notes_apply f r n, hsum]
  rfl

end Recorder

namespace Filter

/-! ## §2 Decoded filters -/

theorem WireNormal.of_node? {f g : Filter} {address : List Nat} (h : f.WireNormal)
    (hnode : f.node? address = some g) {e : String × Constraints} (he : e ∈ g.fields.entries) :
    e.1 ∉ combinatorKeys ∧ e.2.WireNormal := by
  have hvisit : (address, e) ∈ f.visits := mem_visits.2 ⟨g, hnode, he⟩
  exact h e (map_snd_visits f ▸ List.mem_map_of_mem hvisit)

/-- No constraint of a decoded filter vanishes. No node has a field with the name of a combinator or
    without constraints, and no constraint is vacuous; therefore a recorder records as many
    conditions as there are constraints on the fields of the walk, and at least one for each of
    these fields. -/
theorem count_of_ofValue {v : Value} {f : Filter} (h : ofValue v = .ok f) :
    (∀ address g, f.node? address = some g → ∀ e ∈ g.fields.entries,
      e.1 ∉ ["$and", "$or", "$not"] ∧ e.2.isEmpty = false ∧
        ∀ k ∈ e.2.toList, k.isVacuous = false) ∧
    ∀ r : Recorder,
      (f.apply Recorder.countingOps r).run 0 =
          (r.apply f, (f.walk.map fun e => e.2.toList.length).sum) ∧
        ∀ e ∈ f.walk,
          (r.conditions e.1 e.2).length = e.2.toList.length ∧ 0 < e.2.toList.length := by
  have hnormal : f.WireNormal := wireNormal_of_ofValue v h
  have heffective : ∀ e ∈ f.walk, e.2.effective = e.2.toList.length :=
    fun e he => (hnormal e he).2.effective
  refine ⟨fun address g hnode e he => hnormal.of_node? hnode he, fun r => ⟨?_, fun e he => ?_⟩⟩
  · rw [Recorder.run_apply_counting, Nat.zero_add, List.map_congr_left heffective]
  · rw [Recorder.length_conditions, ← heffective e he]
    exact ⟨rfl, Constraints.effective_pos (hnormal e he).2.1⟩

/-- A filter with an empty list beside another operator, and with an empty pattern alone. -/
def emptyOperands : Value :=
  .object [
    ("$or", .array [
      .object [("author.name", .null)],
      .object [("name", .object [("$like", .string "")])]]),
    ("age", .object [("$gte", .ofInt64 18), ("$in", .array [])])]

theorem count_of_ofValue_emptyOperands :
    ∃ f, ofValue emptyOperands = .ok f ∧
      ((f.apply Recorder.countingOps Sample.usersRecorder).run 0).2 = 3 := by
  have h : ofValue emptyOperands = .ok
      { Sample.single "age" { gte := some (.ofInt64 18) } with
        or := [
          Sample.single "author.name" (.equalTo .null),
          Sample.single "name" (.equalTo (.object [("$like", .string "")]))] } := by
    rfl
  obtain ⟨-, hcount⟩ := count_of_ofValue h
  refine ⟨_, h, ?_⟩
  rw [(hcount Sample.usersRecorder).1]
  rfl

end Filter

end ListQuery
