import ListQuery.Proofs.Condition.FilterMeaning

/-!
# The condition of a combination of filters

Each filter in a conjunction, a disjunction or a negation is rendered as it would be alone. The
conditions stand in parentheses of their own, with the connective between them, and filters without
a condition are left out. So neither the number of the filters nor what is in them changes how any
of them is written.

A disjunct is recorded by making one clause of all that was recorded before. This clause is an open
disjunction, and the next disjunct puts it on its left side as it is, so no disjunct but the first
changes how the ones before it are grouped.

## Main statements

- `Recorder.rendered_foldl_or`: the condition of a clause with alternatives to it;
- `Recorder.renderFilter_allOf`, `….renderFilter_anyOf`, `….renderFilter_negate`: the conditions of
  the combinations;
- `Recorder.combined_conditions`: their texts and arguments.
-/

namespace ListQuery

/-! ## §1 Texts -/

namespace Token

theorem textOf_cons (t : Token) (ts : List Token) : textOf (t :: ts) = t.text ++ textOf ts :=
  String.join_cons

theorem textOf_append (ts us : List Token) : textOf (ts ++ us) = textOf ts ++ textOf us := by
  unfold textOf
  rw [List.map_append, String.join_append]

theorem textOf_singleton (t : Token) : textOf [t] = t.text := by
  rw [textOf_cons]
  exact String.append_empty

theorem textOf_grouped (ts : List Token) : textOf (grouped ts) = "(" ++ textOf ts ++ ")" := by
  unfold grouped
  rw [List.cons_append, textOf_cons, textOf_append, ← String.append_assoc]
  rfl

/-- The text of sequences of tokens with a connective between them. -/
theorem textOf_intercalate (t : Token) (tss : List (List Token)) :
    textOf ([t].intercalate tss) = t.text.intercalate (tss.map textOf) := by
  induction tss with
  | nil => rfl
  | cons ts rest ih =>
    cases rest with
    | nil => rw [List.intercalate_singleton, List.map_singleton, String.intercalate_singleton]
    | cons us rest =>
      rw [List.intercalate_cons_cons, textOf_append, textOf_append, textOf_singleton, ih]
      exact String.intercalate_cons_cons.symm

end Token

theorem conjoined_eq_intercalate (tss : List (List Token)) :
    conjoined tss = [Token.and].intercalate tss := by
  induction tss with
  | nil => rfl
  | cons ts rest ih =>
    cases rest with
    | nil => rw [conjoined, List.intercalate_singleton]
    | cons us rest =>
      rw [conjoined, ih, List.intercalate_cons_cons, List.append_assoc]
      · rfl
      · simp

/-! ## §2 Conditions side by side -/

namespace Rendered

/-- Conditions in parentheses with a connective between them. An empty condition is left out. -/
def joinedBy (t : Token) (qs : List Rendered) : Rendered :=
  let present := qs.filter (· ≠ {})
  { tokens := [t].intercalate (present.map fun q => Token.grouped q.tokens)
    args := present.flatMap Rendered.args }

/-- Conditions in parentheses with `AND` between them. An empty condition is left out. -/
def allOf (qs : List Rendered) : Rendered :=
  let present := qs.filter (· ≠ {})
  { tokens := conjoined (present.map fun q => Token.grouped q.tokens)
    args := present.flatMap Rendered.args }

/-- Conditions in parentheses with `OR` between them. An empty condition is left out. -/
def anyOf (qs : List Rendered) : Rendered :=
  joinedBy .or qs

/-- A condition in parentheses behind `NOT`, unless it is empty. -/
def negation (q : Rendered) : Rendered :=
  if q = {} then {} else { tokens := .not :: Token.grouped q.tokens, args := q.args }

theorem allOf_eq_joinedBy (qs : List Rendered) : allOf qs = joinedBy .and qs := by
  simp only [allOf, conjoined_eq_intercalate]
  rfl

theorem text_joinedBy (t : Token) (qs : List Rendered) : (joinedBy t qs).text =
    t.text.intercalate ((qs.filter (· ≠ {})).map fun q => "(" ++ q.text ++ ")") := by
  unfold joinedBy Rendered.text
  rw [Token.textOf_intercalate, List.map_map]
  congr 2
  funext q
  exact Token.textOf_grouped q.tokens

/-- The arguments stand in the order of the conditions, as an empty one has none. -/
theorem args_joinedBy (t : Token) (qs : List Rendered) :
    (joinedBy t qs).args = qs.flatMap Rendered.args := by
  unfold joinedBy
  induction qs with
  | nil => rfl
  | cons q rest ih =>
    dsimp only at ih ⊢
    rw [List.filter_cons, List.flatMap_cons]
    split
    · rw [List.flatMap_cons, ih]
    · rename_i h
      rw [ih, of_not_not fun hne => h (decide_eq_true hne)]
      rfl

/-- The text of conditions side by side. -/
theorem text_allOf (qs : List Rendered) : (allOf qs).text =
    " AND ".intercalate ((qs.filter (· ≠ {})).map fun q => "(" ++ q.text ++ ")") := by
  rw [allOf_eq_joinedBy, text_joinedBy]
  rfl

theorem args_allOf (qs : List Rendered) : (allOf qs).args = qs.flatMap Rendered.args := by
  rw [allOf_eq_joinedBy, args_joinedBy]

theorem text_negation {q : Rendered} (h : q ≠ {}) : q.negation.text = "NOT (" ++ q.text ++ ")" := by
  unfold negation Rendered.text
  rw [if_neg h, Token.textOf_cons, Token.textOf_grouped, ← String.append_assoc,
    ← String.append_assoc]
  rfl

theorem args_negation (q : Rendered) : q.negation.args = q.args := by
  unfold negation
  split
  · rename_i h
    rw [h]
  · rfl

end Rendered

/-! ## §3 Recorders side by side -/

namespace Recorder

/-- The clause that a recorder becomes as a conjunct. -/
def conjunct (sub : Recorder) : Clause :=
  { tokens := Token.grouped sub.rendered.tokens, args := sub.rendered.args }

/-- The conditions of the recorders in which something is recorded, with a connective between
    them. -/
def renderedBy (t : Token) (subs : List Recorder) : Rendered :=
  let present := subs.filter (!·.isEmpty)
  { tokens := [t].intercalate (present.map fun sub => Token.grouped sub.rendered.tokens)
    args := present.flatMap fun sub => sub.rendered.args }

theorem clauses_foldl_and (subs : List Recorder) (r : Recorder) :
    (subs.foldl Recorder.and r).clauses =
      r.clauses ++ (subs.filter (!·.isEmpty)).map conjunct := by
  induction subs generalizing r with
  | nil => simp
  | cons sub rest ih =>
    rw [List.foldl_cons, ih]
    unfold Recorder.and
    cases h : sub.isEmpty <;> simp [h, push, conjunct]

/-- Conjuncts stand beside each other as they are, since each has parentheses of its own. -/
theorem rendered_foldl_and (r : Recorder) (subs : List Recorder) :
    (subs.foldl Recorder.and r.isolated).rendered = renderedBy .and subs := by
  have hconjuncts : (subs.foldl Recorder.and r.isolated).clauses =
      (subs.filter (!·.isEmpty)).map conjunct := clauses_foldl_and subs r.isolated
  unfold rendered render renderedBy
  rw [hconjuncts, conjoined_eq_intercalate, List.map_map, List.flatMap_map]
  congr 2
  refine List.map_congr_left fun sub _ => ?_
  simp [conjunct, Clause.tokensBeside]

theorem rendered_of_clauses_eq_singleton {r : Recorder} {c : Clause} (h : r.clauses = [c]) :
    r.rendered = { tokens := c.tokens, args := c.args } := by
  unfold rendered
  rw [h]
  simp [render, conjoined, Clause.tokensBeside]

/-- An alternative to a single clause goes behind it as it is, without parentheses for the left
    side. -/
theorem clauses_or {r : Recorder} {c : Clause} (h : r.clauses = [c]) {sub : Recorder}
    (hsub : sub.isEmpty = false) : (r.or sub).clauses =
      [{ tokens := c.tokens ++ .or :: Token.grouped sub.rendered.tokens
         args := c.args ++ sub.rendered.args
         disjunction := true }] := by
  have hempty : r.isEmpty = false := by
    unfold isEmpty
    rw [h]
    rfl
  unfold Recorder.or
  simp [hsub, hempty, rendered_of_clauses_eq_singleton h, h]

/-- Two neighbours and what stands between them are one sequence. -/
theorem intercalate_cons_append (t : Token) (ts us : List Token) (rest : List (List Token)) :
    [t].intercalate ((ts ++ t :: us) :: rest) = [t].intercalate (ts :: us :: rest) := by
  rw [List.intercalate_cons_cons]
  cases rest with
  | nil => simp
  | cons ws rest => simp [List.intercalate_cons_cons]

/-- Alternatives to a single clause follow it, whether the clause is a disjunction already or not. -/
theorem rendered_foldl_or {r : Recorder} {c : Clause} (h : r.clauses = [c])
    (subs : List Recorder) : (subs.foldl Recorder.or r).rendered =
      { tokens := [Token.or].intercalate (c.tokens :: (subs.filter (!·.isEmpty)).map fun sub =>
          Token.grouped sub.rendered.tokens)
        args := c.args ++ (subs.filter (!·.isEmpty)).flatMap fun sub => sub.rendered.args } := by
  induction subs generalizing r c with
  | nil =>
    rw [List.foldl_nil, rendered_of_clauses_eq_singleton h]
    simp
  | cons sub rest ih =>
    rw [List.foldl_cons]
    cases hsub : sub.isEmpty with
    | true =>
      have hskip : r.or sub = r := if_pos hsub
      rw [hskip, ih h, List.filter_cons_of_neg (by simp [hsub])]
    | false =>
      rw [ih (clauses_or h hsub), List.filter_cons_of_pos (by simp [hsub]), List.map_cons,
        List.flatMap_cons, List.append_assoc, intercalate_cons_append]

/-- Alternatives to nothing are the alternatives alone. -/
theorem rendered_foldl_or_isolated (r : Recorder) (subs : List Recorder) :
    (subs.foldl Recorder.or r.isolated).rendered = renderedBy .or subs := by
  induction subs with
  | nil => rfl
  | cons sub rest ih =>
    rw [List.foldl_cons]
    cases hsub : sub.isEmpty with
    | true =>
      have hskip : r.isolated.or sub = r.isolated := if_pos hsub
      rw [hskip, ih]
      unfold renderedBy
      rw [List.filter_cons_of_neg (by simp [hsub])]
    | false =>
      -- The first alternative is recorded like a conjunct.
      have hfirst : (r.isolated.or sub).clauses = [sub.conjunct] := by
        unfold Recorder.or
        rw [if_neg (by simp [hsub])]
        rfl
      rw [rendered_foldl_or hfirst]
      unfold renderedBy
      rw [List.filter_cons_of_pos (by simp [hsub])]
      rfl

/-! ## §4 Combined filters -/

/-- Filters whose recorders are not empty are those whose condition is not. -/
theorem renderedBy_apply (r : Recorder) (t : Token) (fs : List Filter) :
    renderedBy t (fs.map r.isolated.apply) =
      Rendered.joinedBy t (fs.map r.isolated.renderFilter) := by
  have hmap : fs.map r.isolated.renderFilter = (fs.map r.isolated.apply).map rendered := by
    rw [List.map_map]
    rfl
  have hpresent : (fs.map r.isolated.renderFilter).filter (· ≠ {}) =
      ((fs.map r.isolated.apply).filter (!·.isEmpty)).map rendered := by
    rw [hmap, List.filter_map]
    congr 1
    refine List.filter_congr fun sub hsub => ?_
    obtain ⟨f, -, rfl⟩ := List.mem_map.1 hsub
    have hempty := (r.means_apply f).isEmpty_iff
    rw [Function.comp_apply, Bool.eq_iff_iff, decide_eq_true_iff, Bool.not_eq_true', ne_eq,
      ← hempty, Bool.not_eq_true]
  simp only [renderedBy, Rendered.joinedBy, hpresent, List.map_map, List.flatMap_map]
  rfl

/-- The condition of a conjunction of filters is made of their conditions, each of them rendered as
    it would be alone. -/
theorem renderFilter_allOf (r : Recorder) (fs : List Filter) :
    r.isolated.renderFilter (.allOf fs) = .allOf (fs.map r.isolated.renderFilter) := by
  have happly : r.isolated.apply (.allOf fs) =
      (fs.map r.isolated.apply).foldl Recorder.and r.isolated := apply_eq r.isolated (.allOf fs)
  rw [Rendered.allOf_eq_joinedBy, ← renderedBy_apply, ← rendered_foldl_and r, ← happly]
  rfl

/-- The condition of a disjunction of filters is made of their conditions in the same way. -/
theorem renderFilter_anyOf (r : Recorder) (fs : List Filter) :
    r.isolated.renderFilter (.anyOf fs) = .anyOf (fs.map r.isolated.renderFilter) := by
  have happly : r.isolated.apply (.anyOf fs) =
      (fs.map r.isolated.apply).foldl Recorder.or r.isolated := apply_eq r.isolated (.anyOf fs)
  unfold Rendered.anyOf
  rw [← renderedBy_apply, ← rendered_foldl_or_isolated r, ← happly]
  rfl

/-- The condition of a negated filter is its negated condition. -/
theorem renderFilter_negate (r : Recorder) (f : Filter) :
    r.isolated.renderFilter f.negate = (r.isolated.renderFilter f).negation := by
  have happly : r.isolated.apply f.negate = r.isolated.not (r.isolated.apply f) :=
    apply_eq r.isolated f.negate
  have hempty := (r.means_apply f).isEmpty_iff
  unfold renderFilter Rendered.negation
  rw [happly]
  unfold Recorder.not
  simp only [hempty]
  split
  · rfl
  · exact rendered_of_clauses_eq_singleton (c := { tokens := _, args := _ }) rfl

end Recorder

/-! ## §5 Texts and arguments -/

/-- Whether a field in the tree of a filter has a condition. -/
def Filter.HasCondition (r : Recorder) (f : Filter) : Prop :=
  ∃ e ∈ f.walk, r.conditions e.1 e.2 ≠ []

instance (r : Recorder) : DecidablePred (Filter.HasCondition r) :=
  fun f => inferInstanceAs (Decidable (∃ e ∈ f.walk, r.conditions e.1 e.2 ≠ []))

theorem Filter.hasCondition_iff (r : Recorder) (f : Filter) :
    f.HasCondition r ↔ r.isolated.renderFilter f ≠ {} := by
  have hempty := (r.means_apply f).eq_none_iff fun _ => true
  rw [f.meaning_eq_none_iff] at hempty
  unfold HasCondition Recorder.renderFilter
  rw [ne_eq, ← hempty]
  push Not
  rfl

/-- **Filters are combined as they are rendered alone.** In a context without clauses, the condition
    of a conjunction is the conditions of those filters that have one, each in parentheses, with
    `AND` between them; that of a disjunction is the same with `OR`. A negation is `NOT` and the
    condition in parentheses, or nothing if there is no condition. The arguments are those of the
    filters, one after the other. -/
theorem Recorder.combined_conditions (r : Recorder) (fs : List Filter) (f : Filter) :
    let alone := r.isolated.renderFilter
    let grouped := (fs.filter fun g => g.HasCondition r).map fun g => "(" ++ (alone g).text ++ ")"
    ((alone (.allOf fs)).text = " AND ".intercalate grouped ∧
        (alone (.allOf fs)).args = fs.flatMap fun g => (alone g).args) ∧
      ((alone (.anyOf fs)).text = " OR ".intercalate grouped ∧
        (alone (.anyOf fs)).args = fs.flatMap fun g => (alone g).args) ∧
      (alone f.negate).text =
        (if f.HasCondition r then "NOT (" ++ (alone f).text ++ ")" else "") ∧
      (alone f.negate).args = (alone f).args := by
  intro alone grouped
  have hgrouped : ((fs.map alone).filter (· ≠ {})).map (fun q => "(" ++ q.text ++ ")") =
      grouped := by
    rw [List.filter_map, List.map_map]
    congr 1
    exact List.filter_congr fun g _ => decide_eq_decide.2 (g.hasCondition_iff r).symm
  have hargs : (fs.map alone).flatMap Rendered.args = fs.flatMap fun g => (alone g).args :=
    List.flatMap_map ..
  have hall : alone (.allOf fs) = .allOf (fs.map alone) := r.renderFilter_allOf fs
  have hany : alone (.anyOf fs) = .joinedBy .or (fs.map alone) := r.renderFilter_anyOf fs
  have hnegate : alone f.negate = (alone f).negation := r.renderFilter_negate f
  refine ⟨⟨?_, ?_⟩, ⟨?_, ?_⟩, ?_, ?_⟩
  · rw [hall, Rendered.text_allOf, hgrouped]
  · rw [hall, Rendered.args_allOf, hargs]
  · rw [hany, Rendered.text_joinedBy, hgrouped]
    rfl
  · rw [hany, Rendered.args_joinedBy, hargs]
  · rw [hnegate]
    split
    · rename_i h
      exact Rendered.text_negation ((f.hasCondition_iff r).1 h)
    · rename_i h
      have hempty : alone f = {} := of_not_not fun hne => h ((f.hasCondition_iff r).2 hne)
      rw [hempty]
      rfl
  · rw [hnegate, Rendered.args_negation]

end ListQuery
