import ListQuery.Proofs.Condition.Combinators
import ListQuery.Request.Paging

/-!
# Plans keep to the additional filter

A plan puts an additional filter before the caller's. Whatever the caller asks for, its filter is
one conjunct beside the additional one, in parentheses of its own, so alternatives and negations in
it reach no further than these. A row that passes the planned filter therefore passes the additional
one. The rest of the request goes to the request that fetches the rows, and none of it to the one
that counts them.

## Main statements

- `Filter.holds_renderFilter_merge`: a merged filter holds where both of its sides do;
- `Plan.new_new`: planning a planned request changes nothing;
- `Plan.new_keeps_additional`: what a plan makes of a request.
-/

namespace ListQuery

/-! ## §1 The meaning of a merged filter -/

/-- Whether a condition holds under a truth assignment of its atoms. An empty one always does. -/
def Rendered.Holds (v : Atom → Bool) (q : Rendered) : Prop :=
  q = {} ∨ Evaluates v q.tokens true

namespace Filter

theorem isEmpty_iff (f : Filter) : f.isEmpty = true ↔ f = {} := by
  obtain ⟨and, or, not, fields⟩ := f
  constructor
  · intro h
    simp only [isEmpty, Bool.and_eq_true, List.isEmpty_iff, Option.isNone_iff_eq_none,
      KeyMap.isEmpty] at h
    obtain ⟨⟨⟨rfl, rfl⟩, rfl⟩, hfields⟩ := h
    rw [KeyMap.ext (n := ∅) hfields]
  · rintro ⟨⟩
    rfl

theorem merge_eq (caller additional : Filter) : caller.merge additional =
    if caller = {} then additional
    else if additional = {} then caller else allOf [additional, caller] := by
  simp only [merge, isEmpty_iff]

/-- Merging with the empty filter changes nothing. -/
theorem merge_empty (f : Filter) : f.merge {} = f := by
  rw [merge_eq]
  split
  · rename_i h
    exact h.symm
  · exact if_pos rfl

/-- A condition holds unless its filter has the meaning `false`. -/
theorem holds_renderFilter (r : Recorder) (v : Atom → Bool) (f : Filter) :
    (r.isolated.renderFilter f).Holds v ↔ (f.meaning r v).getD true = true := by
  have hmeans := r.means_apply f
  have hempty : f.meaning r v = none ↔ r.isolated.renderFilter f = {} := hmeans.eq_none_iff v
  have htrue : Evaluates v (r.isolated.renderFilter f).tokens true ↔ f.meaning r v = some true :=
    hmeans.evaluates_iff v true
  unfold Rendered.Holds
  rw [← hempty, htrue]
  rcases f.meaning r v with _ | _ | _ <;> simp

theorem meaning_allOf (r : Recorder) (v : Atom → Bool) (fs : List Filter) :
    (allOf fs).meaning r v = allOf? (fs.map (meaning r v)) := by
  rw [meaning_eq_merge]
  show Option.merge (· && ·) ((fs.map (meaning r v)).foldl (Option.merge (· && ·)) none) none = _
  rw [Option.merge_none_right, foldl_merge_and, allOf?_none_cons]

theorem meaning_merge (r : Recorder) (v : Atom → Bool) (caller additional : Filter) :
    (caller.merge additional).meaning r v =
      Option.merge (· && ·) (additional.meaning r v) (caller.meaning r v) := by
  have hnone : meaning r v {} = none := meaning_allOf r v []
  rw [merge_eq]
  split
  · rename_i h
    rw [h, hnone, Option.merge_none_right]
  split
  · rename_i h
    rw [h, hnone, Option.merge_none_left]
  · rw [meaning_allOf, List.map_cons, List.map_singleton, ← foldl_merge_and]
    rfl

/-- The merged filter holds where both of its sides do. -/
theorem holds_renderFilter_merge (r : Recorder) (v : Atom → Bool) (caller additional : Filter) :
    (r.isolated.renderFilter (caller.merge additional)).Holds v ↔
      (r.isolated.renderFilter additional).Holds v ∧ (r.isolated.renderFilter caller).Holds v := by
  simp only [holds_renderFilter, meaning_merge]
  cases additional.meaning r v <;> cases caller.meaning r v <;> simp

end Filter

/-! ## §2 Requests -/

namespace Request

/-- Paging is put in normal form by its page and its offset alone. -/
theorem exists_normalize_eq (r : Request) :
    ∃ page offset, r.normalize = { r with page, offset } := by
  unfold normalize
  split
  · exact ⟨_, _, rfl⟩
  · exact ⟨r.page, r.offset, rfl⟩

theorem derivedOffset?_normalize (r : Request) : r.normalize.derivedOffset? = none := by
  unfold normalize
  split
  · rfl
  · assumption

/-- A request in normal form stays as it is. -/
theorem normalize_normalize (r : Request) : r.normalize.normalize = r.normalize := by
  rw [normalize.eq_1 r.normalize, derivedOffset?_normalize]

end Request

/-! ## §3 Plans -/

namespace Plan

variable (request : Request) (additional : Filter)

theorem filter_new : (new request additional).data.filter = request.filter.merge additional := by
  obtain ⟨page, offset, h⟩ :=
    (request.withFilter (request.filter.merge additional)).exists_normalize_eq
  unfold new
  rw [h]
  rfl

/-- Planning the planned request again changes nothing. -/
theorem new_new : new (new request additional).data {} = new request additional := by
  have hself (r : Request) : r.withFilter r.filter = r := rfl
  unfold new
  rw [Filter.merge_empty, hself, Request.normalize_normalize]

/-- **A plan keeps to the additional filter.** Both of its requests have the same filter. Its
    condition is that of the other filter if one of the two is empty, and otherwise both conditions
    in parentheses with `AND` between them, the additional one first; so it holds where both of them
    hold. The order, the columns, the nested relations and the limit go to the request that fetches
    the rows, and the request that counts them has the filter only. Planning again changes
    nothing. -/
theorem new_keeps_additional (request : Request) (additional : Filter) :
    let plan := new request additional
    plan.count = { filter := plan.data.filter } ∧
    (∀ r : Recorder,
      let system := r.isolated.renderFilter additional
      let caller := r.isolated.renderFilter request.filter
      let planned := r.isolated.renderFilter plan.data.filter
      let both := Rendered.allOf [system, caller]
      planned =
        (if request.filter = {} then system else if additional = {} then caller else both) ∧
      both.text = " AND ".intercalate
        (([system, caller].filter (· ≠ {})).map fun q => "(" ++ q.text ++ ")") ∧
      both.args = system.args ++ caller.args ∧
      ∀ v, planned.Holds v ↔ system.Holds v ∧ caller.Holds v) ∧
    (plan.data.order = request.order ∧ plan.data.select = request.select ∧
      plan.data.nested = request.nested ∧ plan.data.limit = request.limit) ∧
    new plan.data {} = plan := by
  refine ⟨rfl, fun r => ⟨?_, Rendered.text_allOf _, ?_, fun v => ?_⟩, ?_,
    new_new request additional⟩
  · rw [filter_new, Filter.merge_eq]
    split
    · rfl
    split
    · rfl
    · exact r.renderFilter_allOf [additional, request.filter]
  · rw [Rendered.args_allOf]
    simp
  · rw [filter_new]
    exact Filter.holds_renderFilter_merge r v request.filter additional
  · obtain ⟨page, offset, h⟩ :=
      (request.withFilter (request.filter.merge additional)).exists_normalize_eq
    unfold new
    rw [h]
    exact ⟨rfl, rfl, rfl, rfl⟩

end Plan

end ListQuery
