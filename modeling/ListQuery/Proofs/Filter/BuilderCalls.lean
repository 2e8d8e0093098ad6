import ListQuery.Filter.Builder
import ListQuery.Proofs.Filter.Operand
import Mathlib.Data.List.Induction

/-!
# The filter that calls build

Calls write into a filter one after another, and every call writes into one *slot*: an operator of a
field, the conjuncts, the alternatives, or the negated filter. In an operator and in the negated
filter the last call stays; conjuncts and alternatives add up in the order of the calls. So the
filter can be told from the calls without running them one by one, and two neighbouring calls that
write into different slots can change places.

The two calls that say whether a field is null write into one slot, and so do the two that say
whether it is there: each pair is one operator with a truth value.

## Main definitions

- `FilterBuilder.settingsOn`, `FilterBuilder.lastSetting?`: what calls set on a field;
- `FilterBuilder.Call.slot`: what a call writes into.

## Main statements

- `Constraints.mem_toList_set_iff`: what one more constraint changes;
- `FilterBuilder.get?_fields_runFrom`: the constraints that calls leave on a field;
- `FilterBuilder.call_comm`: calls that write into different slots;
- `FilterBuilder.build_run`: the filter that calls build.
-/

namespace ListQuery

/-! ## §1 Setting constraints -/

namespace Constraints

/-- Whether a constraint is set. -/
def Holds (c : Constraints) : Constraint → Prop
  | .eq v => c.eq = some v
  | .ne v => c.ne = some v
  | .gt v => c.gt = some v
  | .gte v => c.gte = some v
  | .lt v => c.lt = some v
  | .lte v => c.lte = some v
  | .oneOf vs => c.oneOf = some vs
  | .noneOf vs => c.noneOf = some vs
  | .like p => c.like = some p
  | .ilike p => c.ilike = some p
  | .between low high => c.between = some (low, high)
  | .present b => c.present = some b
  | .null b => c.null = some b

theorem mem_toList {c : Constraints} {k : Constraint} : k ∈ c.toList ↔ c.Holds k := by
  cases k <;> simp [toList, Holds]

/-- A constraint takes the place of the one of its operator, and the others stay. -/
theorem mem_toList_set_iff {c : Constraints} {k j : Constraint} :
    j ∈ (c.set k).toList ↔ j = k ∨ (j ∈ c.toList ∧ j.key ≠ k.key) := by
  simp only [mem_toList]
  cases k <;> cases j <;> simp [Holds, set, Constraint.key, eq_comm]

theorem set_comm (c : Constraints) {k l : Constraint} (h : k.key ≠ l.key) :
    (c.set k).set l = (c.set l).set k := by
  cases k <;> cases l <;> first | rfl | exact absurd rfl h

/-- Of the constraints of one operator that are set one after another, the last one stays. -/
theorem mem_toList_foldl_set {ks : List Constraint} {k : Constraint} :
    k ∈ (ks.foldl set {}).toList ↔ (ks.filter fun j => j.key = k.key).getLast? = some k := by
  induction ks using List.reverseRecOn with
  | nil => cases k <;> simp [mem_toList, Holds]
  | append_singleton ks j ih =>
    rw [List.foldl_append, List.foldl_cons, List.foldl_nil, mem_toList_set_iff, ih,
      List.filter_append]
    by_cases hkey : j.key = k.key
    · -- The last one replaces all others of its operator.
      simp [hkey, eq_comm]
    · -- It leaves those of other operators as they are.
      have hne : k ≠ j := fun heq => hkey (heq ▸ rfl)
      simp [hkey, hne, Ne.symm hkey]

end Constraints

/-! ## §2 The calls on one part of a filter -/

namespace FilterBuilder

variable {ρ : Type}

/-- The constraint that a call sets on a field. -/
def Call.settingOn? (path : String) : Call ρ → Option Constraint
  | .set field c => if field.path = path then some c else none
  | _ => none

/-- The filters of the nested builders that a call gives as conjuncts. -/
def Call.conjuncts : Call ρ → List Filter
  | .and subs => subs.map fun sub => (run sub).build
  | _ => []

def Call.alternatives : Call ρ → List Filter
  | .or subs => subs.map fun sub => (run sub).build
  | _ => []

/-- The filter of the nested builder that a call negates. -/
def Call.negated? : Call ρ → Option Filter
  | .not sub => some (run sub).build
  | _ => none

/-- The constraints that calls set on a field, in the order of the calls. -/
def settingsOn (path : String) (calls : List (Call ρ)) : List Constraint :=
  calls.filterMap (Call.settingOn? path)

theorem settingsOn_cons (path : String) (c : Call ρ) (calls : List (Call ρ)) :
    settingsOn path (c :: calls) = (c.settingOn? path).toList ++ settingsOn path calls := by
  unfold settingsOn
  cases h : c.settingOn? path with
  | none =>
    rw [List.filterMap_cons_none h]
    rfl
  | some k =>
    rw [List.filterMap_cons_some h]
    rfl

/-- The last constraint of an operator that calls set on a field. -/
def lastSetting? (path key : String) (calls : List (Call ρ)) : Option Constraint :=
  ((settingsOn path calls).filter fun k => k.key = key).getLast?

theorem ne_nil_settingsOn_iff {path : String} {calls : List (Call ρ)} :
    settingsOn path calls ≠ [] ↔ ∃ field c, Call.set field c ∈ calls ∧ field.path = path := by
  rw [settingsOn, Ne, List.filterMap_eq_nil_iff]
  push Not
  constructor
  · rintro ⟨c, hc, hset⟩
    cases c with
    | set field k =>
      exact ⟨field, k, hc, not_not.1 fun hne => hset (if_neg hne)⟩
    | and | or | not => exact absurd rfl hset
  · rintro ⟨field, c, hc, hpath⟩
    exact ⟨_, hc, by simp [Call.settingOn?, hpath]⟩

theorem map_build_runEach (subs : List (List (Call ρ))) :
    (runEach subs).map build = subs.map fun sub => (run sub).build := by
  induction subs with
  | nil => rw [runEach]; rfl
  | cons calls rest ih => rw [runEach, List.map_cons, List.map_cons, ih, run]

theorem runFrom_append (b : FilterBuilder ρ) (front back : List (Call ρ)) :
    runFrom b (front ++ back) = runFrom (runFrom b front) back := by
  induction front generalizing b with
  | nil => rw [runFrom]; rfl
  | cons c rest ih => rw [List.cons_append, runFrom, runFrom, ih]

/-! ## §3 One call -/

theorem and_call (b : FilterBuilder ρ) (c : Call ρ) :
    (b.call c).build.and = b.build.and ++ c.conjuncts := by
  cases c with
  | and subs =>
    rw [call, Call.conjuncts, ← map_build_runEach]
    rfl
  | set field k =>
    rw [call_set]
    exact (List.append_nil _).symm
  | or | not =>
    rw [call]
    exact (List.append_nil _).symm

theorem or_call (b : FilterBuilder ρ) (c : Call ρ) :
    (b.call c).build.or = b.build.or ++ c.alternatives := by
  cases c with
  | or subs =>
    rw [call, Call.alternatives, ← map_build_runEach]
    rfl
  | set field k =>
    rw [call_set]
    exact (List.append_nil _).symm
  | and | not =>
    rw [call]
    exact (List.append_nil _).symm

theorem not_call (b : FilterBuilder ρ) (c : Call ρ) :
    (b.call c).build.not = c.negated?.or b.build.not := by
  cases c with
  | set field k =>
    rw [call_set]
    rfl
  | and | or | not =>
    rw [call]
    rfl

/-- The constraints that a builder has for a field, none if there is no entry. -/
def held (b : FilterBuilder ρ) (path : String) : Constraints :=
  (b.build.fields.get? path).getD {}

theorem get?_fields_call (b : FilterBuilder ρ) (c : Call ρ) (path : String) :
    (b.call c).build.fields.get? path =
      ((c.settingOn? path).map (b.held path).set).or (b.build.fields.get? path) := by
  cases c with
  | set field c =>
    rw [call_set]
    show (b.filter.fields.insert _ _).get? path = _
    rw [KeyMap.get?_insert]
    by_cases h : path = field.path
    · have hset : (Call.set field c).settingOn? path = some c := if_pos h.symm
      rw [if_pos h, hset, h]
      rfl
    · have hset : (Call.set field c).settingOn? path = none := if_neg (Ne.symm h)
      rw [if_neg h, hset]
      rfl
  | and | or | not =>
    rw [call]
    rfl

/-! ## §4 Sequences of calls -/

theorem and_runFrom (b : FilterBuilder ρ) (calls : List (Call ρ)) :
    (runFrom b calls).build.and = b.build.and ++ calls.flatMap Call.conjuncts := by
  induction calls generalizing b with
  | nil => rw [runFrom, List.flatMap_nil, List.append_nil]
  | cons c rest ih => rw [runFrom, ih, and_call, List.flatMap_cons, List.append_assoc]

theorem or_runFrom (b : FilterBuilder ρ) (calls : List (Call ρ)) :
    (runFrom b calls).build.or = b.build.or ++ calls.flatMap Call.alternatives := by
  induction calls generalizing b with
  | nil => rw [runFrom, List.flatMap_nil, List.append_nil]
  | cons c rest ih => rw [runFrom, ih, or_call, List.flatMap_cons, List.append_assoc]

theorem not_runFrom (b : FilterBuilder ρ) (calls : List (Call ρ)) :
    (runFrom b calls).build.not = (calls.filterMap Call.negated?).getLast?.or b.build.not := by
  induction calls generalizing b with
  | nil => rw [runFrom]; rfl
  | cons c rest ih =>
    rw [runFrom, ih, not_call, List.filterMap_cons]
    cases c.negated? with
    | none => rfl
    | some f => rw [List.getLast?_cons, Option.some_or]; cases (rest.filterMap _).getLast? <;> rfl

/-- The constraints that calls leave on a field: what they set goes one after another to what was
    there, and where they set nothing, there is an entry only if there was one. -/
theorem get?_fields_runFrom (b : FilterBuilder ρ) (calls : List (Call ρ)) (path : String) :
    (runFrom b calls).build.fields.get? path =
      if settingsOn path calls = [] then b.build.fields.get? path
      else some ((settingsOn path calls).foldl Constraints.set (b.held path)) := by
  induction calls generalizing b with
  | nil => rw [runFrom]; rfl
  | cons c rest ih =>
    rw [runFrom, ih, held, get?_fields_call, settingsOn_cons]
    cases c.settingOn? path with
    | none => rfl
    | some k =>
      show (if settingsOn path rest = [] then some ((b.held path).set k)
        else some ((settingsOn path rest).foldl Constraints.set ((b.held path).set k))) =
          some ((settingsOn path rest).foldl Constraints.set ((b.held path).set k))
      -- Where nothing more is set, the list of what is set ends here.
      split
      · rename_i hnil
        rw [hnil]
        rfl
      · rfl

theorem get?_fields_run (calls : List (Call ρ)) (path : String) :
    (run calls).build.fields.get? path =
      if settingsOn path calls = [] then none
      else some ((settingsOn path calls).foldl Constraints.set {}) :=
  get?_fields_runFrom new calls path

/-! ## §5 Slots -/

/-- The parts of a filter that calls write into. -/
inductive Slot where
  | operator (path key : String)
  | and
  | or
  | not
  deriving DecidableEq

/-- What a call writes into. -/
def Call.slot : Call ρ → Slot
  | .set field c => .operator field.path c.key
  | .and _ => .and
  | .or _ => .or
  | .not _ => .not

/-- Constraints for different operators or on different fields can be set in any order. -/
theorem set_set_comm (b : FilterBuilder ρ) {field field' : Field ρ} {c c' : Constraint}
    (h : field.path = field'.path → c.key ≠ c'.key) :
    (b.set field c).set field' c' = (b.set field' c').set field c := by
  have hfields : ((b.set field c).set field' c').build.fields =
      ((b.set field' c').set field c).build.fields := by
    refine KeyMap.ext_get? fun path => ?_
    simp only [set, build, Filter.withField, KeyMap.get?_insert]
    -- The two calls only meet on a field that both of them name.
    by_cases hpath : path = field.path <;> by_cases hpath' : path = field'.path
    · have hkey := h (hpath.symm.trans hpath')
      simp [← hpath, ← hpath', Constraints.set_comm _ hkey]
    · simp [← hpath, hpath']
    · simp [hpath, ← hpath']
    · simp [hpath, hpath']
  simp only [set, build, Filter.withField] at hfields ⊢
  rw [hfields]

/-- Two calls that write into different slots can be made in any order. -/
theorem call_comm (b : FilterBuilder ρ) {c c' : Call ρ} (h : c.slot ≠ c'.slot) :
    (b.call c).call c' = (b.call c').call c := by
  cases c with
  | set field k =>
    cases c' with
    | set field' k' =>
      simp only [call, operate_eq_set]
      exact set_set_comm b fun hpath hkey => h (congrArg₂ _ hpath hkey)
    | and | or | not => simp only [call, operate_eq_set]; rfl
  | and =>
    cases c' with
    | and => exact absurd rfl h
    | set | or | not => simp only [call, operate_eq_set]; rfl
  | or =>
    cases c' with
    | or => exact absurd rfl h
    | set | and | not => simp only [call, operate_eq_set]; rfl
  | not =>
    cases c' with
    | not => exact absurd rfl h
    | set | and | or => simp only [call, operate_eq_set]; rfl

/-- **The filter that calls build.** A field has an entry if some call names it. In every entry an
    operator holds the constraint of the last call that sets it on the field, and nothing if there
    is no such call. The conjuncts and the alternatives are the filters of the nested builders in
    the order of the calls, and the negated filter is the one of the last call that negates. So two
    neighbouring calls that write into different slots can be swapped. -/
theorem build_run (calls : List (Call ρ)) :
    (∀ path, (∃ held, (run calls).build.fields.get? path = some held) ↔
        ∃ field c, Call.set field c ∈ calls ∧ field.path = path) ∧
      (∀ path held, (run calls).build.fields.get? path = some held → ∀ k, k ∈ held.toList ↔
        lastSetting? path k.key calls = some k) ∧
      (run calls).build.and = calls.flatMap Call.conjuncts ∧
      (run calls).build.or = calls.flatMap Call.alternatives ∧
      (run calls).build.not = (calls.filterMap Call.negated?).getLast? ∧
      ∀ front c c' back, calls = front ++ c :: c' :: back → c.slot ≠ c'.slot →
        (run (front ++ c' :: c :: back)).build = (run calls).build := by
  refine ⟨fun path => ?_, fun path held hheld k => ?_, and_runFrom new calls,
    or_runFrom new calls, ?_, ?_⟩
  · rw [← ne_nil_settingsOn_iff, get?_fields_run]
    by_cases hnil : settingsOn path calls = [] <;> simp [hnil]
  · rw [get?_fields_run] at hheld
    split at hheld
    · cases hheld
    · obtain rfl := Option.some.inj hheld
      exact Constraints.mem_toList_foldl_set
  · rw [run, not_runFrom]
    exact Option.or_none
  · rintro front c c' back rfl hslot
    simp only [run, runFrom_append, runFrom, call_comm _ hslot]

/-- Whether a field is null is one operator, so the second call takes the place of the first. The
    nested builder without calls gives a conjunct all the same. -/
example :
    let views : Field Unit := ⟨"views"⟩
    (run [.set views (.null true), .and [[]], .set views (.gte (.ofInt64 10)),
        .set views (.null false)]).build =
      { and := [{}]
        fields := .ofList [("views", { gte := some (.ofInt64 10), null := some false })] } := by
  decide +kernel

end FilterBuilder

end ListQuery
