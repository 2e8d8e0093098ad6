import ListQuery.Filter.Builder
import ListQuery.Proofs.Condition.Apply
import ListQuery.Proofs.Condition.Operators
import ListQuery.Proofs.Filter.RoundTrip
import Mathlib.Tactic.Tauto

/-!
# Built filters after the wire

Calls build filters that are never read from the wire: they can set constraints that constrain
nothing. Beside others these are lost on the way, and as they have no condition, nobody notices. But
a field on which nothing else is set arrives as a comparison with the operator object that was
written for it. It had no condition, and now it has one, with an argument of its own. So a filter
asks for the same after the wire exactly if no field in its tree has vacuous constraints alone.

## Main definitions

- `FilterBuilder.settings`: the constraints that calls set, at any depth.

## Main statements

- `FilterBuilder.forall_walk_run`: what every call keeps holds of every field of a built filter;
- `Filter.length_args_received`: one more argument for every field without a condition;
- `Filter.render_received_iff`: the filters that ask for the same after the wire;
- `FilterBuilder.apply_same_of_settings`: calls that set nothing vacuous;
- `FilterBuilder.renders_same_iff`: the built filters that ask for the same after the wire.
-/

namespace ListQuery

open Json (Value)

/-! ## §1 What calls build -/

namespace FilterBuilder

variable {ρ : Type} {P : String → Constraints → Prop}

mutual

/-- The constraints that a call sets, with the paths of their fields. -/
def Call.settings : Call ρ → List (String × Constraint)
  | .set field c => [(field.path, c)]
  | .and subs => settingsOfEach subs
  | .or subs => settingsOfEach subs
  | .not sub => settings sub

/-- The constraints that calls set, those for nested builders included. -/
def settings : List (Call ρ) → List (String × Constraint)
  | [] => []
  | c :: rest => c.settings ++ settings rest

def settingsOfEach : List (List (Call ρ)) → List (String × Constraint)
  | [] => []
  | calls :: rest => settings calls ++ settingsOfEach rest

end

/-- Whether setting these constraints keeps a property of fields, which they may be the first to
    give to a field. -/
def Keeps (P : String → Constraints → Prop) (settings : List (String × Constraint)) : Prop :=
  ∀ s ∈ settings, ∀ held, held = {} ∨ P s.1 held → P s.1 (held.set s.2)

/-- Whether every field in the tree has a property. -/
def FieldsHave (P : String → Constraints → Prop) (f : Filter) : Prop :=
  ∀ e ∈ f.walk, P e.1 e.2

theorem fieldsHave_new : FieldsHave P (new : FilterBuilder ρ).build := by
  intro e he
  exact absurd he List.not_mem_nil

theorem fieldsHave_set {b : FilterBuilder ρ} (hb : FieldsHave P b.build) {field : Field ρ}
    {c : Constraint} (hset : Keeps P [(field.path, c)]) : FieldsHave P (b.set field c).build := by
  intro e he
  have hown := fun e he => hb e (Filter.mem_walk.2 (Or.inl he))
  rcases Filter.mem_walk.1 he with he | hpart
  · rcases mem_insertKey he with rfl | he
    · -- What the field held before is nothing or something with the property.
      apply hset _ List.mem_cons_self
      cases hheld : b.filter.fields.get? field.path with
      | none => exact Or.inl rfl
      | some held => exact Or.inr (hown _ (KeyMap.mem_of_get? hheld))
    · exact hown e he
  · exact hb e (Filter.mem_walk.2 (Or.inr hpart))

/-- The fields of a node with new parts are the node's own and those of the parts. -/
theorem fieldsHave_of_parts {f g : Filter} (hf : FieldsHave P f) (hfields : g.fields = f.fields)
    (hparts : ∀ p ∈ g.parts, p ∈ f.parts ∨ FieldsHave P p) : FieldsHave P g := by
  intro e he
  rcases Filter.mem_walk.1 he with he | ⟨p, hp, he⟩
  · exact hf e (Filter.mem_walk.2 (Or.inl (hfields ▸ he)))
  · rcases hparts p hp with hp | hp
    · exact hf e (Filter.mem_walk.2 (Or.inr ⟨p, hp, he⟩))
    · exact hp e he

theorem fieldsHave_and {b : FilterBuilder ρ} (hb : FieldsHave P b.build)
    {subs : List (FilterBuilder ρ)} (hsubs : ∀ f ∈ subs.map build, FieldsHave P f) :
    FieldsHave P (b.and subs).build := by
  refine fieldsHave_of_parts hb rfl fun p hp => ?_
  have hcases : p ∈ b.build.parts ∨ p ∈ subs.map build := by
    simp only [Filter.mem_parts, and, build, List.mem_append] at hp ⊢
    tauto
  exact hcases.imp_right (hsubs p)

theorem fieldsHave_or {b : FilterBuilder ρ} (hb : FieldsHave P b.build)
    {subs : List (FilterBuilder ρ)} (hsubs : ∀ f ∈ subs.map build, FieldsHave P f) :
    FieldsHave P (b.or subs).build := by
  refine fieldsHave_of_parts hb rfl fun p hp => ?_
  have hcases : p ∈ b.build.parts ∨ p ∈ subs.map build := by
    simp only [Filter.mem_parts, or, build, List.mem_append] at hp ⊢
    tauto
  exact hcases.imp_right (hsubs p)

theorem fieldsHave_not {b sub : FilterBuilder ρ} (hb : FieldsHave P b.build)
    (hsub : FieldsHave P sub.build) : FieldsHave P (b.not sub).build := by
  refine fieldsHave_of_parts hb rfl fun p hp => ?_
  rcases Filter.mem_parts.1 hp with hp | hp | hp
  · exact Or.inl (Filter.mem_parts.2 (Or.inl hp))
  · exact Or.inl (Filter.mem_parts.2 (Or.inr (Or.inl hp)))
  -- The negated filter of before is gone.
  · obtain rfl := Option.mem_some.1 hp
    exact Or.inr hsub

theorem Keeps.of_append {xs ys : List (String × Constraint)} (h : Keeps P (xs ++ ys)) :
    Keeps P xs ∧ Keeps P ys :=
  ⟨fun s hs => h s (List.mem_append_left ys hs), fun s hs => h s (List.mem_append_right xs hs)⟩

mutual

/-- A call that keeps a property of fields keeps it in the whole tree. -/
theorem fieldsHave_call : (c : Call ρ) → {b : FilterBuilder ρ} → FieldsHave P b.build →
    Keeps P c.settings → FieldsHave P (b.call c).build
  | .set _ _, _, hb, h => by
    rw [Call.settings] at h
    rw [call_set]
    exact fieldsHave_set hb h
  | .and subs, _, hb, h => by
    rw [Call.settings] at h
    exact fieldsHave_and hb (fieldsHave_runEach subs h)
  | .or subs, _, hb, h => by
    rw [Call.settings] at h
    exact fieldsHave_or hb (fieldsHave_runEach subs h)
  | .not sub, _, hb, h => by
    rw [Call.settings] at h
    exact fieldsHave_not hb (fieldsHave_runFrom sub fieldsHave_new h)

/-- Calls that keep a property of fields keep it in the whole tree. -/
theorem fieldsHave_runFrom : (calls : List (Call ρ)) → {b : FilterBuilder ρ} →
    FieldsHave P b.build → Keeps P (settings calls) → FieldsHave P (runFrom b calls).build
  | [], _, hb, _ => by
    rw [runFrom]
    exact hb
  | c :: rest, b, hb, h => by
    rw [settings] at h
    rw [runFrom]
    exact fieldsHave_runFrom rest (fieldsHave_call c hb h.of_append.1) h.of_append.2

theorem fieldsHave_runEach : (subs : List (List (Call ρ))) → Keeps P (settingsOfEach subs) →
    ∀ f ∈ (runEach subs).map build, FieldsHave P f
  | [], _, f, hf => by
    rw [runEach] at hf
    exact absurd hf List.not_mem_nil
  | calls :: rest, h, f, hf => by
    rw [settingsOfEach] at h
    rw [runEach, List.map_cons] at hf
    rcases List.mem_cons.1 hf with rfl | hf
    · exact fieldsHave_runFrom calls fieldsHave_new h.of_append.1
    · exact fieldsHave_runEach rest h.of_append.2 f hf

end

/-- A property that every call keeps holds of every field of the filter that is built. -/
theorem forall_walk_run {calls : List (Call ρ)} (h : Keeps P (settings calls)) :
    ∀ e ∈ (run calls).build.walk, P e.1 e.2 :=
  fieldsHave_runFrom calls fieldsHave_new h

end FilterBuilder

/-! ## §2 After the wire -/

namespace Filter

/-- A filter arrives with every constraint as what it arrives as. -/
theorem ofValue_toValue_eq_received {f : Filter} (h : ∀ e ∈ f.walk, e.1 ∉ combinatorKeys) :
    ofValue f.toValue = .ok (f.mapFields Constraints.received) := by
  have hreceived : (fun c : Constraints => Constraints.ofOperand c.toOperand) =
      Constraints.received := funext Constraints.ofOperand_toOperand_eq_received
  rw [ofValue_toValue h, hreceived]

theorem length_argsAt_received (r : Recorder) (e : String × Constraints) :
    (r.argsAt (e.1, e.2.received)).length =
      (r.argsAt e).length + if e.2.isEmpty then 1 else 0 := by
  unfold Recorder.argsAt
  rw [Recorder.conditions_received]
  split
  · rename_i hempty
    -- There was no condition, and now there is a comparison with one operand.
    rw [(r.conditions_eq_nil_iff e.1 e.2).2 hempty, List.flatMap_singleton]
    rfl
  · exact (Nat.add_zero _).symm

theorem length_flatMap_argsAt_received (r : Recorder) (entries : List (String × Constraints)) :
    ((entries.map fun e => (e.1, e.2.received)).flatMap r.argsAt).length =
      (entries.flatMap r.argsAt).length + entries.countP fun e => e.2.isEmpty := by
  induction entries with
  | nil => rfl
  | cons e rest ih =>
    rw [List.map_cons, List.flatMap_cons, List.flatMap_cons, List.length_append,
      List.length_append, ih, length_argsAt_received, List.countP_cons]
    omega

/-- A filter arrives with one more argument for every field that has no condition. -/
theorem length_args_received (r : Recorder) (f : Filter) :
    (r.renderFilter (f.mapFields Constraints.received)).args.length =
      (r.renderFilter f).args.length + f.walk.countP fun e => e.2.isEmpty := by
  unfold Recorder.renderFilter
  rw [Recorder.args_apply, Recorder.args_apply, walk_mapFields, List.length_append,
    List.length_append, length_flatMap_argsAt_received, Nat.add_assoc]

/-- A filter in which every field has a condition is applied in the same way after the wire. -/
theorem apply_received (r : Recorder) {f : Filter} (h : ∀ e ∈ f.walk, e.2.isEmpty = false) :
    r.apply (f.mapFields Constraints.received) = r.apply f := by
  refine Recorder.apply_mapFields fun e he => ?_
  rw [Recorder.conditions_received, h e he]
  rfl

/-- A filter asks for the same after the wire if and only if every field has a condition. -/
theorem render_received_iff (r : Recorder) (f : Filter) :
    ((r.renderFilter (f.mapFields Constraints.received)).text = (r.renderFilter f).text ∧
        (r.renderFilter (f.mapFields Constraints.received)).args = (r.renderFilter f).args) ↔
      ∀ e ∈ f.walk, e.2.isEmpty = false := by
  constructor
  · rintro ⟨-, hargs⟩ e he
    have hlength := length_args_received r f
    rw [hargs] at hlength
    have hnone : f.walk.countP (fun e => e.2.isEmpty) = 0 := by omega
    simpa using List.countP_eq_zero.1 hnone e he
  · intro h
    unfold Recorder.renderFilter
    rw [apply_received r h]
    exact ⟨rfl, rfl⟩

end Filter

/-! ## §3 Built filters after the wire -/

namespace FilterBuilder

variable {ρ : Type}

theorem notMem_combinatorKeys_of_settings {calls : List (Call ρ)}
    (h : ∀ s ∈ settings calls, s.1 ∉ combinatorKeys) :
    ∀ e ∈ (run calls).build.walk, e.1 ∉ combinatorKeys :=
  @forall_walk_run ρ (fun path _ => path ∉ combinatorKeys) calls fun s hs _ _ => h s hs

/-- Calls that set nothing vacuous build a filter that is applied in the same way after the wire. -/
theorem apply_same_of_settings {calls : List (Call ρ)}
    (hnames : ∀ s ∈ settings calls, s.1 ∉ combinatorKeys)
    (hvacuous : ∀ s ∈ settings calls, s.2.isVacuous = false) :
    ∃ g, Filter.ofValue (run calls).build.toValue = .ok g ∧
      ∀ r : Recorder, r.apply g = r.apply (run calls).build := by
  have hconstrained : ∀ e ∈ (run calls).build.walk, e.2.isEmpty = false :=
    @forall_walk_run ρ (fun _ c => c.isEmpty = false) calls fun s hs held _ =>
      held.isEmpty_set (hvacuous s hs)
  exact ⟨_, Filter.ofValue_toValue_eq_received (notMem_combinatorKeys_of_settings hnames),
    fun r => Filter.apply_received r hconstrained⟩

/-- **A built filter arrives, and it asks for the same exactly if no field has vacuous constraints
    alone.** The calls set any constraints on fields that are not named like combinators, at any
    depth. What they build is read back from its wire form, and in every context the condition and
    the arguments are then the ones of before, unless there is a field in the tree on which nothing
    is constrained. -/
theorem renders_same_iff (calls : List (Call ρ))
    (h : ∀ s ∈ settings calls, s.1 ∉ combinatorKeys) :
    ∃ g, Filter.ofValue (run calls).build.toValue = .ok g ∧
      ∀ r : Recorder,
        ((r.renderFilter g).text = (r.renderFilter (run calls).build).text ∧
            (r.renderFilter g).args = (r.renderFilter (run calls).build).args) ↔
          ∀ e ∈ (run calls).build.walk, e.2.isEmpty = false :=
  ⟨_, Filter.ofValue_toValue_eq_received (notMem_combinatorKeys_of_settings h),
    fun r => Filter.render_received_iff r _⟩

/-- Calls on fields of every sort: one on which an empty pattern stands beside an equality, a dotted
    one, and ones in nested builders, the last of which has no calls. -/
def mixedCalls : List (Call Unit) := [
  .set ⟨"title"⟩ (.like ""),
  .set ⟨"title"⟩ (.eq (.string "Rust")),
  .set ⟨"author.age"⟩ (.gte (.ofInt64 18)),
  .or [[.set ⟨"views"⟩ (.noneOf [.null])], []],
  .not [.set ⟨"deleted"⟩ (.null false)]]

theorem renders_same_mixedCalls :
    (∀ s ∈ settings mixedCalls, s.1 ∉ combinatorKeys) ∧
      ∃ g, Filter.ofValue (run mixedCalls).build.toValue = .ok g ∧
        ∀ r : Recorder, (r.renderFilter g).text = (r.renderFilter (run mixedCalls).build).text ∧
          (r.renderFilter g).args = (r.renderFilter (run mixedCalls).build).args := by
  have hnames : ∀ s ∈ settings mixedCalls, s.1 ∉ combinatorKeys := by decide
  obtain ⟨g, hread, hsame⟩ := renders_same_iff mixedCalls hnames
  exact ⟨hnames, g, hread, fun r => (hsame r).2 (by decide +kernel)⟩

/-- A field of which nothing is asked but to be in an empty list arrives as a field that equals the
    operator object. -/
theorem renders_emptyList :
    let f := (run [.set (⟨"a"⟩ : Field Unit) (.oneOf [])]).build
    let g := ({} : Filter).withField "a" (.equalTo (.object [("$in", .array [])]))
    Filter.ofValue f.toValue = .ok g ∧
      (Recorder.renderFilter {} f).text = "" ∧ (Recorder.renderFilter {} f).args = [] ∧
      (Recorder.renderFilter {} g).text = "\"a\" = ?" ∧
      (Recorder.renderFilter {} g).args = [.object [("$in", .array [])]] := by
  decide +kernel

end FilterBuilder

end ListQuery
