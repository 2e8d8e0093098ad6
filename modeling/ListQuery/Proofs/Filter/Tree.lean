import ListQuery.Filter.Basic
import ListQuery.Proofs.Json.Members
import Mathlib.Data.List.Basic

/-!
# The tree of a filter

The parts of a filter are filters again, in two lists and an option. `Filter.induction` is the
induction over this tree with one case, the node, where the property is known of all parts. What
holds of every field of a tree is a statement about its walk.

## Main statements

- `Filter.induction`: a property that goes from the parts to the node holds of every filter;
- `Filter.mem_walk`: a field of the tree is a field of the root or of one of the parts;
- `Filter.walk_mapFields`: the walk of a tree in which constraints are replaced;
- `Filter.mapFields_eq_self`: replacing constraints by themselves leaves the tree as it is.
-/

namespace ListQuery

namespace Filter

/-! ## §1 Induction -/

/-- The filters that a filter combines, in visiting order. -/
def parts (f : Filter) : List Filter :=
  f.and ++ f.or ++ f.not.toList

theorem mem_parts {f g : Filter} : g ∈ f.parts ↔ g ∈ f.and ∨ g ∈ f.or ∨ g ∈ f.not := by
  simp only [parts, List.mem_append, Option.mem_toList, Option.mem_def, or_assoc]

-- The induction goes down the list or the option in which a part stands.
mutual

private theorem induction_node {P : Filter → Prop}
    (node : ∀ f : Filter, (∀ g ∈ f.parts, P g) → P f) : (f : Filter) → P f
  | ⟨and, or, not, _⟩ => by
    apply node
    intro g hg
    rcases mem_parts.1 hg with hg | hg | hg
    · exact induction_list node and g hg
    · exact induction_list node or g hg
    · exact induction_option node not g hg

private theorem induction_list {P : Filter → Prop}
    (node : ∀ f : Filter, (∀ g ∈ f.parts, P g) → P f) : (fs : List Filter) → ∀ g ∈ fs, P g
  | [], _, hg => absurd hg List.not_mem_nil
  | f :: rest, g, hg => by
    rcases List.mem_cons.1 hg with heq | hg
    · exact heq ▸ induction_node node f
    · exact induction_list node rest g hg

private theorem induction_option {P : Filter → Prop}
    (node : ∀ f : Filter, (∀ g ∈ f.parts, P g) → P f) : (o : Option Filter) → ∀ g ∈ o, P g
  | none, g, hg => absurd hg (Option.not_mem_none g)
  | some f, g, hg => by
    have heq : f = g := Option.mem_some.1 hg
    exact heq ▸ induction_node node f

end

/-- Induction over the tree of a filter. -/
@[elab_as_elim]
theorem induction {P : Filter → Prop} (f : Filter)
    (node : ∀ f : Filter, (∀ g ∈ f.parts, P g) → P f) : P f :=
  induction_node node f

theorem eq_empty_of_isEmpty {f : Filter} (h : f.isEmpty = true) : f = {} := by
  obtain ⟨and, or, not, fields⟩ := f
  simp only [isEmpty, Bool.and_eq_true, List.isEmpty_iff, Option.isNone_iff_eq_none] at h
  obtain ⟨⟨⟨rfl, rfl⟩, rfl⟩, hfields⟩ := h
  have hfields : fields = ∅ := KeyMap.ext (List.isEmpty_iff.1 hfields)
  rw [hfields]

/-! ## §2 The walk -/

theorem walk_eq (f : Filter) : f.walk = f.fields.entries ++ f.parts.flatMap walk := by
  obtain ⟨and, or, not, fields⟩ := f
  unfold parts
  rw [walk, walkAll_eq_flatMap, walkAll_eq_flatMap, List.flatMap_append, List.flatMap_append,
    List.append_assoc, List.append_assoc, List.append_assoc]
  cases not with
  | none => rfl
  | some g => simp only [walkOption, Option.toList_some, List.flatMap_singleton]

/-- A field of the tree is a field of the root or of one of the parts. -/
theorem mem_walk {f : Filter} {e : String × Constraints} :
    e ∈ f.walk ↔ e ∈ f.fields.entries ∨ ∃ g ∈ f.parts, e ∈ g.walk := by
  rw [walk_eq, List.mem_append, List.mem_flatMap]

/-! ## §3 Replacing constraints -/

mutual

/-- The filter with the constraints of every field in the tree replaced. -/
def mapFields (r : Constraints → Constraints) : Filter → Filter
  | ⟨and, or, not, fields⟩ =>
    ⟨mapFieldsAll r and, mapFieldsAll r or, mapFieldsOption r not, fields.mapValues r⟩

/-- The filters with the constraints of every field replaced. -/
def mapFieldsAll (r : Constraints → Constraints) : List Filter → List Filter
  | [] => []
  | f :: rest => f.mapFields r :: mapFieldsAll r rest

/-- The filter, if there is one, with the constraints of every field replaced. -/
def mapFieldsOption (r : Constraints → Constraints) : Option Filter → Option Filter
  | none => none
  | some f => some (f.mapFields r)

end

theorem mapFieldsAll_eq_map (r : Constraints → Constraints) (fs : List Filter) :
    mapFieldsAll r fs = fs.map (mapFields r) := by
  induction fs with
  | nil => rfl
  | cons f rest ih => rw [mapFieldsAll, ih, List.map_cons]

theorem mapFields_eq (r : Constraints → Constraints) (f : Filter) : f.mapFields r =
    { and := f.and.map (mapFields r)
      or := f.or.map (mapFields r)
      not := f.not.map (mapFields r)
      fields := f.fields.mapValues r } := by
  obtain ⟨and, or, not, fields⟩ := f
  rw [mapFields, mapFieldsAll_eq_map, mapFieldsAll_eq_map]
  cases not <;> rfl

theorem parts_mapFields (r : Constraints → Constraints) (f : Filter) :
    (f.mapFields r).parts = f.parts.map (mapFields r) := by
  unfold parts
  rw [mapFields_eq, List.map_append, List.map_append]
  cases f.not <;> rfl

/-- The walk meets the replaced constraints where it met the ones they replace. -/
theorem walk_mapFields (r : Constraints → Constraints) (f : Filter) :
    (f.mapFields r).walk = f.walk.map fun e => (e.1, r e.2) := by
  induction f using Filter.induction with
  | node f ih =>
    have hown : (f.mapFields r).fields.entries = f.fields.entries.map fun e => (e.1, r e.2) := by
      rw [mapFields_eq]
      rfl
    have hparts : (f.parts.map (mapFields r)).flatMap walk =
        (f.parts.flatMap walk).map fun e => (e.1, r e.2) := by
      rw [List.flatMap_map, List.map_flatMap]
      exact List.flatMap_congr ih
    rw [walk_eq, walk_eq f, parts_mapFields, hown, hparts, List.map_append]

/-- A tree in which all constraints are replaced by themselves stays as it is. -/
theorem mapFields_eq_self {r : Constraints → Constraints} {f : Filter}
    (h : ∀ e ∈ f.walk, r e.2 = e.2) : f.mapFields r = f := by
  induction f using Filter.induction with
  | node f ih =>
    have hpart : ∀ g ∈ f.parts, g.mapFields r = g := by
      intro g hg
      exact ih g hg fun e he => h e (mem_walk.2 (Or.inr ⟨g, hg, he⟩))
    -- A list of parts is a list of filters that stay as they are.
    have hlist : ∀ fs : List Filter, (∀ g ∈ fs, g ∈ f.parts) → fs.map (mapFields r) = fs := by
      intro fs hfs
      rw [List.map_congr_left fun g hg => hpart g (hfs g hg), List.map_id']
    have hand : f.and.map (mapFields r) = f.and :=
      hlist f.and fun g hg => mem_parts.2 (Or.inl hg)
    have hor : f.or.map (mapFields r) = f.or :=
      hlist f.or fun g hg => mem_parts.2 (Or.inr (Or.inl hg))
    have hnot : f.not.map (mapFields r) = f.not := by
      cases hf : f.not with
      | none => rfl
      | some g => rw [Option.map_some, hpart g (mem_parts.2 (Or.inr (Or.inr hf)))]
    have hfields : f.fields.mapValues r = f.fields :=
      KeyMap.mapValues_eq_self fun e he => h e (mem_walk.2 (Or.inl he))
    rw [mapFields_eq, hand, hor, hnot, hfields]
    cases f
    rfl

end Filter

end ListQuery
