import ListQuery.Condition.Operators
import ListQuery.Proofs.Filter.Tree

/-!
# Applying a filter as folds

Recorders have no effects, so applying a filter to one is four folds, one after another: over the
conditions of the node's fields, and over what becomes of its conjuncts, of its alternatives and of
its negated filter in recorders of their own. All of these recorders are isolated from the same
table and relations, since combining keeps both, and so a part is recorded as it would be alone.

## Main statements

- `Recorder.isolated_apply`: applying a filter keeps the table and the relations;
- `Recorder.apply_eq`: applying a filter is four folds;
- `Recorder.args_apply`: the arguments are those of all conditions, in visiting order;
- `Recorder.apply_mapFields`: only the conditions of the fields count.
-/

namespace ListQuery

open Json (Value)

namespace Recorder

/-! ## §1 Context -/

/-- Steps that keep the table and the relations keep them in a fold. -/
theorem isolated_foldl {α : Type} {step : Recorder → α → Recorder}
    (h : ∀ r a, (step r a).isolated = r.isolated) (as : List α) (r : Recorder) :
    (as.foldl step r).isolated = r.isolated := by
  induction as generalizing r with
  | nil => rfl
  | cons a rest ih => rw [List.foldl_cons, ih, h]

/-- The conditions on a field depend on the table and the relations only. -/
theorem conditions_congr {r s : Recorder} (h : r.isolated = s.isolated) (path : String)
    (c : Constraints) : r.conditions path c = s.conditions path c := by
  obtain ⟨htable, hrelations, -⟩ := Recorder.mk.inj h
  unfold conditions reference isRelation
  rw [htable, hrelations]

theorem conditions_isolated (r : Recorder) (path : String) (c : Constraints) :
    r.isolated.conditions path c = r.conditions path c :=
  conditions_congr rfl path c

theorem isolated_field (r : Recorder) (path : String) (c : Constraints) :
    (r.field path c).isolated = r.isolated :=
  isolated_foldl isolated_condition _ r

/-! ## §2 Folds -/

/-- The conditions of a node's own fields, in path order. -/
def ownConditions (r : Recorder) (f : Filter) : List Atom :=
  f.fields.entries.flatMap fun e => r.conditions e.1 e.2

theorem applyFields_eq (r : Recorder) (entries : List (String × Constraints)) :
    (Filter.applyFields ops r entries).run =
      (entries.flatMap fun e => r.conditions e.1 e.2).foldl condition r := by
  induction entries generalizing r with
  | nil => rfl
  | cons e rest ih =>
    -- The conditions of the fields that follow do not depend on what was recorded before.
    have hstep : (Filter.applyFields ops r (e :: rest)).run =
        (Filter.applyFields ops (r.field e.1 e.2) rest).run := by
      simp only [Filter.applyFields, ops, Id.run_bind, Id.run_pure]
    have hconditions : (rest.flatMap fun e' => (r.field e.1 e.2).conditions e'.1 e'.2) =
        rest.flatMap fun e' => r.conditions e'.1 e'.2 := by
      simp only [conditions_congr (isolated_field r e.1 e.2)]
    rw [hstep, ih, hconditions, List.flatMap_cons, List.foldl_append, ← field]

/-- Applying filters combines what becomes of each of them alone. -/
theorem applyAll_eq {combine : Recorder → Recorder → Recorder}
    (h : ∀ r sub, (combine r sub).isolated = r.isolated) (r : Recorder) (fs : List Filter) :
    (Filter.applyAll ops (fun r sub => pure (combine r sub)) r fs).run =
      (fs.map r.isolated.apply).foldl combine r := by
  induction fs generalizing r with
  | nil => rfl
  | cons f rest ih =>
    have hstep : (Filter.applyAll ops (fun r sub => pure (combine r sub)) r (f :: rest)).run =
        (Filter.applyAll ops (fun r sub => pure (combine r sub))
          (combine r (r.isolated.apply f)) rest).run := by
      rw [Filter.applyAll]
      rfl
    rw [hstep, ih, h, List.map_cons, List.foldl_cons]

/-- Applying a filter is a fold over its own conditions, then over its conjuncts, its alternatives
    and its negated filter, each of them applied to a recorder without clauses. -/
theorem apply_eq (r : Recorder) (f : Filter) : r.apply f =
    (f.not.toList.map r.isolated.apply).foldl Recorder.not
      ((f.or.map r.isolated.apply).foldl Recorder.or
        ((f.and.map r.isolated.apply).foldl Recorder.and
          ((r.ownConditions f).foldl condition r))) := by
  obtain ⟨and, or, not, fields⟩ := f
  generalize hown : (r.ownConditions ⟨and, or, not, fields⟩).foldl condition r = own
  generalize hand : (and.map r.isolated.apply).foldl Recorder.and own = conjoined
  generalize hor : (or.map r.isolated.apply).foldl Recorder.or conjoined = disjoined
  -- Each of the intermediate recorders isolates to the recorder that `r` isolates to.
  have hownIsolated : own.isolated = r.isolated := by
    rw [← hown, isolated_foldl isolated_condition]
  have handIsolated : conjoined.isolated = r.isolated := by
    rw [← hand, isolated_foldl isolated_and, hownIsolated]
  have horIsolated : disjoined.isolated = r.isolated := by
    rw [← hor, isolated_foldl isolated_or, handIsolated]
  have hfields : (Filter.applyFields ops r fields.entries).run = own :=
    (applyFields_eq r fields.entries).trans hown
  have hconjuncts : (Filter.applyAll ops ops.and own and).run = conjoined := by
    rw [← hand, ← hownIsolated]
    exact applyAll_eq isolated_and own and
  have halternatives : (Filter.applyAll ops ops.or conjoined or).run = disjoined := by
    rw [← hor, ← handIsolated]
    exact applyAll_eq isolated_or conjoined or
  have hsteps : r.apply ⟨and, or, not, fields⟩ =
      (Filter.applyOption ops (Filter.applyAll ops ops.or (Filter.applyAll ops ops.and
        (Filter.applyFields ops r fields.entries).run and).run or).run not).run := by
    unfold Recorder.apply
    rw [Filter.apply]
    rfl
  rw [hsteps, hfields, hconjuncts, halternatives]
  cases not with
  | none => rfl
  | some g =>
    have hstep : (Filter.applyOption ops disjoined (some g)).run =
        disjoined.not (disjoined.isolated.apply g) := by
      rw [Filter.applyOption]
      rfl
    rw [hstep, horIsolated]
    rfl

/-- Applying a filter keeps the table and the relations. -/
theorem isolated_apply (r : Recorder) (f : Filter) : (r.apply f).isolated = r.isolated := by
  rw [apply_eq, isolated_foldl isolated_not, isolated_foldl isolated_or,
    isolated_foldl isolated_and, isolated_foldl isolated_condition]

/-! ## §3 Arguments -/

theorem args_push (r : Recorder) (tokens : List Token) (args : List Value) :
    (r.push tokens args).rendered.args = r.rendered.args ++ args := by
  simp only [push, rendered, render, List.flatMap_append, List.flatMap_singleton]

theorem args_of_isEmpty {r : Recorder} (h : r.isEmpty = true) : r.rendered.args = [] := by
  simp only [rendered, render, List.isEmpty_iff.1 h, List.flatMap_nil]

theorem args_and (r sub : Recorder) :
    (r.and sub).rendered.args = r.rendered.args ++ sub.rendered.args := by
  unfold Recorder.and
  split
  · rename_i hsub
    rw [args_of_isEmpty hsub, List.append_nil]
  · exact args_push r _ _

theorem args_or (r sub : Recorder) :
    (r.or sub).rendered.args = r.rendered.args ++ sub.rendered.args := by
  unfold Recorder.or
  split
  · rename_i hsub
    rw [args_of_isEmpty hsub, List.append_nil]
  · split
    · exact args_push r _ _
    · exact List.flatMap_singleton _ _

theorem args_not (r sub : Recorder) :
    (r.not sub).rendered.args = r.rendered.args ++ sub.rendered.args := by
  unfold Recorder.not
  split
  · rename_i hsub
    rw [args_of_isEmpty hsub, List.append_nil]
  · exact args_push r _ _

/-- Steps that append arguments append them one after another in a fold. -/
theorem args_foldl {α : Type} {step : Recorder → α → Recorder} {args : α → List Value}
    (h : ∀ r a, (step r a).rendered.args = r.rendered.args ++ args a) (as : List α)
    (r : Recorder) : (as.foldl step r).rendered.args = r.rendered.args ++ as.flatMap args := by
  induction as generalizing r with
  | nil => exact (List.append_nil _).symm
  | cons a rest ih => rw [List.foldl_cons, ih, h, List.flatMap_cons, List.append_assoc]

/-- The arguments of the conditions on a field. -/
def argsAt (r : Recorder) (e : String × Constraints) : List Value :=
  (r.conditions e.1 e.2).flatMap Atom.args

theorem argsAt_isolated (r : Recorder) : r.isolated.argsAt = r.argsAt := by
  funext e
  unfold argsAt
  rw [conditions_isolated]

/-- Applying a filter appends the arguments of the conditions on all fields of the tree, in the order
    in which these are visited. -/
theorem args_apply (r : Recorder) (f : Filter) :
    (r.apply f).rendered.args = r.rendered.args ++ f.walk.flatMap r.argsAt := by
  induction f using Filter.induction generalizing r with
  | node f ih =>
    -- A part starts without arguments, so it has only those of its own fields.
    have hpart : ∀ g ∈ f.parts, (r.isolated.apply g).rendered.args = g.walk.flatMap r.argsAt := by
      intro g hg
      rw [ih g hg, argsAt_isolated]
      rfl
    have hparts : ∀ fs : List Filter, (∀ g ∈ fs, g ∈ f.parts) →
        (fs.map r.isolated.apply).flatMap (fun sub => sub.rendered.args) =
          (fs.flatMap Filter.walk).flatMap r.argsAt := by
      intro fs hfs
      rw [List.flatMap_map, List.flatMap_assoc]
      exact List.flatMap_congr fun g hg => hpart g (hfs g hg)
    have hown : (r.ownConditions f).flatMap Atom.args = f.fields.entries.flatMap r.argsAt :=
      List.flatMap_assoc
    have hstep : ∀ (s : Recorder) (a : Atom),
        (s.condition a).rendered.args = s.rendered.args ++ a.args := fun s a => args_push s _ _
    rw [apply_eq, args_foldl args_not, args_foldl args_or, args_foldl args_and, args_foldl hstep,
      hown, hparts f.and fun g hg => Filter.mem_parts.2 (Or.inl hg),
      hparts f.or fun g hg => Filter.mem_parts.2 (Or.inr (Or.inl hg)),
      hparts f.not.toList fun g hg => Filter.mem_parts.2 (Or.inr (Or.inr (Option.mem_toList.1 hg))),
      Filter.walk_eq, Filter.parts]
    simp only [List.flatMap_append, List.append_assoc]

/-! ## §4 Replacing constraints -/

/-- Constraints may be replaced by others with the same conditions. -/
theorem apply_mapFields {replace : Constraints → Constraints} {r : Recorder} {f : Filter}
    (h : ∀ e ∈ f.walk, r.conditions e.1 (replace e.2) = r.conditions e.1 e.2) :
    r.apply (f.mapFields replace) = r.apply f := by
  induction f using Filter.induction generalizing r with
  | node f ih =>
    have hpart : ∀ g ∈ f.parts,
        r.isolated.apply (g.mapFields replace) = r.isolated.apply g := by
      intro g hg
      refine ih g hg fun e he => ?_
      rw [conditions_isolated, conditions_isolated]
      exact h e (Filter.mem_walk.2 (Or.inr ⟨g, hg, he⟩))
    have hparts : ∀ fs : List Filter, (∀ g ∈ fs, g ∈ f.parts) →
        (fs.map (Filter.mapFields replace)).map r.isolated.apply = fs.map r.isolated.apply := by
      intro fs hfs
      rw [List.map_map]
      exact List.map_congr_left fun g hg => hpart g (hfs g hg)
    have hown : r.ownConditions (f.mapFields replace) = r.ownConditions f := by
      have hentries : (f.mapFields replace).fields.entries =
          f.fields.entries.map fun e => (e.1, replace e.2) := by
        rw [Filter.mapFields_eq]
        rfl
      unfold ownConditions
      rw [hentries, List.flatMap_map]
      exact List.flatMap_congr fun e he => h e (Filter.mem_walk.2 (Or.inl he))
    have hnot : (f.not.map (Filter.mapFields replace)).toList =
        f.not.toList.map (Filter.mapFields replace) := by
      cases f.not <;> rfl
    rw [apply_eq, apply_eq, hown, Filter.mapFields_eq]
    dsimp only
    rw [hnot, hparts f.and fun g hg => Filter.mem_parts.2 (Or.inl hg),
      hparts f.or fun g hg => Filter.mem_parts.2 (Or.inr (Or.inl hg)),
      hparts f.not.toList fun g hg => Filter.mem_parts.2 (Or.inr (Or.inr (Option.mem_toList.1 hg)))]

end Recorder

end ListQuery
