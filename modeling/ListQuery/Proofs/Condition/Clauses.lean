import ListQuery.Proofs.Condition.Combinators
import ListQuery.Proofs.Condition.Operators
import ListQuery.Proofs.Condition.Reference
import ListQuery.Proofs.Filter.BuilderCalls

/-!
# The clauses of constraints

The constraints on a field are recorded behind what is there already, and nothing else changes. Each
constraint that is not vacuous is one clause, in the order of the operators, so that constraints
leave a recorder as it is if and only if all of them are vacuous. The clause of a comparison has a
cast behind its reference if the path leads into a document, and which one it has is decided by the
operand.

## Main definitions

- `Atom.clause`: the clause that a condition is recorded as;
- `Clause.Carries`: clauses with a cast behind the reference.

## Main statements

- `Recorder.field_eq`: what a recorder records for constraints;
- `Constraint.carries_iff_of_document`: which clauses have a cast;
- `Recorder.field_appends`: one clause for each constraint that is not vacuous.
-/

namespace ListQuery

open Json (Value)

/-! ## §1 Clauses -/

/-- The clause that a condition is recorded as. -/
def Atom.clause (a : Atom) : Clause where
  tokens := [.atom a]
  args := a.args

def Clause.text (cl : Clause) : String :=
  Token.textOf cl.tokens

theorem Atom.text_clause (a : Atom) : a.clause.text = a.text := by
  unfold Clause.text Atom.clause
  rw [Token.textOf_singleton]
  rfl

namespace Recorder

theorem foldl_condition (atoms : List Atom) (r : Recorder) :
    atoms.foldl condition r = { r with clauses := r.clauses ++ atoms.map Atom.clause } := by
  induction atoms generalizing r with
  | nil => simp
  | cons a atoms ih =>
    rw [List.foldl_cons, ih]
    simp [condition, push, Atom.clause]

/-- The conditions of the constraints on a field are recorded behind everything else. -/
theorem field_eq (r : Recorder) (path : String) (c : Constraints) :
    r.field path c = { r with clauses := r.clauses ++ (r.conditions path c).map Atom.clause } :=
  foldl_condition _ r

theorem field_eq_self_iff (r : Recorder) (path : String) (c : Constraints) :
    r.field path c = r ↔ c.isEmpty = true := by
  rw [← r.conditions_eq_nil_iff path c, field_eq]
  constructor
  · intro h
    have hclauses := congrArg Recorder.clauses h
    simpa using hclauses
  · intro h
    simp [h]

/-- The conditions are those of the constraints that are not vacuous. -/
theorem conditions_eq_map (r : Recorder) (path : String) (c : Constraints) :
    r.conditions path c =
      (c.toList.filter (!·.isVacuous)).map (Constraint.condition (r.reference path)) := by
  unfold conditions
  rw [← List.filterMap_eq_map, List.filterMap_filter]
  congr
  funext k
  rw [Constraint.condition?_eq]
  cases k.isVacuous <;> rfl

end Recorder

/-! ## §2 Casts -/

/-- The text of a clause is a reference, a cast right behind it, and anything. -/
def Clause.Carries (cl : Clause) (ref : Reference) (cast : String) : Prop :=
  ∃ rest, cl.text = ref.text ++ cast ++ rest

namespace Constraint

/-- The suffix begins with a blank, so that no cast can be read from it. -/
theorem head?_suffix (k : Constraint) : k.suffix.toList.head? = some ' ' := by
  cases k with
  | eq v | ne v => cases v <;> simp [suffix]
  | present b | null b => cases b <;> simp [suffix]
  | _ => simp [suffix]

theorem carries_iff (ref : Reference) (k : Constraint) (cast : String) :
    (k.condition ref).clause.Carries ref cast ↔
      cast.toList <+: (ref.cast k.sample?).toList ++ k.suffix.toList := by
  have htext : (k.condition ref).clause.text = ref.text ++ (ref.cast k.sample? ++ k.suffix) := by
    rw [Atom.text_clause, condition, String.append_assoc]
  unfold Clause.Carries
  rw [htext]
  constructor
  · rintro ⟨rest, h⟩
    rw [String.append_assoc] at h
    have hrest := String.append_right_inj _ |>.1 h
    exact ⟨rest.toList, by simp [← String.toList_append, hrest]⟩
  · rintro ⟨rest, h⟩
    refine ⟨String.ofList rest, ?_⟩
    rw [String.append_assoc, ← String.toList_inj]
    simp [← h]

/-- The casts that are carried are those of the operand. -/
theorem carries_iff_cast_eq (ref : Reference) (k : Constraint) {cast : String}
    (hcast : cast = "::numeric" ∨ cast = "::boolean") :
    (k.condition ref).clause.Carries ref cast ↔ ref.cast k.sample? = cast := by
  -- Where there is no cast, the blank of the suffix stands at its place.
  obtain ⟨rest, hrest⟩ := List.head?_eq_some_iff.1 k.head?_suffix
  have hvalue : ref.cast k.sample? = "" ∨ ref.cast k.sample? = "::numeric" ∨
      ref.cast k.sample? = "::boolean" := by
    unfold Reference.cast
    split
    · split <;> simp
    · simp
  rw [carries_iff, hrest]
  rcases hcast with rfl | rfl <;> rcases hvalue with h | h | h <;> simp [h]

/-- On a document reference the clause of a comparison has the cast to numbers if and only if it
    compares with a number, and the cast to truth values if and only if it compares with one. -/
theorem carries_iff_of_document {ref : Reference} (hdocument : ref.isDocument = true)
    {k : Constraint} {v : Value} (hsample : k.sample? = some v) :
    ((k.condition ref).clause.Carries ref "::numeric" ↔ ∃ n, v = .number n) ∧
      ((k.condition ref).clause.Carries ref "::boolean" ↔ ∃ b, v = .bool b) := by
  rw [carries_iff_cast_eq ref k (Or.inl rfl), carries_iff_cast_eq ref k (Or.inr rfl), hsample]
  unfold Reference.cast
  rw [if_pos hdocument]
  cases v <;> simp

end Constraint

/-! ## §3 One clause for each constraint -/

/-- Constraints leave a recorder as it is if and only if all of them are vacuous. Otherwise each of
    those that are not is one clause behind the clauses that are there, in the order of the
    operators, and nothing else changes. On a path into a document the clause of a comparison is
    cast as its operand asks. -/
theorem Recorder.field_appends (r : Recorder) (path : String) (c : Constraints) :
    (r.field path c = r ↔ c.isEmpty = true) ∧
      ∃ (ks : List Constraint) (added : List Clause),
        ks.Pairwise (·.ctorIdx < ·.ctorIdx) ∧
        (∀ k, k ∈ ks ↔ c.Holds k ∧ k.isVacuous = false) ∧
        r.field path c = { r with clauses := r.clauses ++ added } ∧
        List.Forall₂ (fun k cl =>
          (∃ a, k.condition? (r.reference path) = some a ∧ cl = a.clause) ∧
          ∀ first rest v, path = first ++ "." ++ rest → '.' ∉ first.toList →
            r.isRelation first = false → k.sample? = some v →
            (cl.Carries (r.reference path) "::numeric" ↔ ∃ n, v = .number n) ∧
            (cl.Carries (r.reference path) "::boolean" ↔ ∃ b, v = .bool b)) ks added := by
  refine ⟨r.field_eq_self_iff path c, c.toList.filter (!·.isVacuous),
    (r.conditions path c).map Atom.clause, c.pairwise_toList.filter _, fun k => ?_,
    r.field_eq path c, ?_⟩
  · rw [List.mem_filter, Constraints.mem_toList, Bool.not_eq_true']
  · rw [conditions_eq_map, List.map_map, List.forall₂_map_right_iff, List.forall₂_same]
    intro k hk
    have hvacuous : k.isVacuous = false := by simpa using (List.mem_filter.1 hk).2
    refine ⟨⟨_, by rw [Constraint.condition?_eq, hvacuous]; rfl, rfl⟩, ?_⟩
    intro first rest v hpath hfirst hrelation hsample
    have hdocument : (r.reference path).isDocument = true :=
      r.isDocument_reference_iff path |>.2
        ⟨first, Filter.relationOfPath?_eq_some_iff.2 ⟨rest, hpath, hfirst⟩, hrelation⟩
    exact Constraint.carries_iff_of_document hdocument hsample

end ListQuery
