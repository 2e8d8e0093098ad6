import ListQuery.Filter.Wire
import ListQuery.Proofs.Json.Members

/-!
# Operands on the wire

The constraints on one field are written as an operand and read back from it. Three encodings share
the wire: a bare value, an equality under its own key, and an object of operators. They do not
collide, and what is lost on the way are the vacuous constraints alone, as long as something is
constrained at all.

## Main statements

- `Constraints.member?_operators`: what stands under a key of the operator object;
- `Constraints.ofOperand_toOperand`: constraints come back without the vacuous ones;
- `Constraints.ofOperand_toOperand_eq_received`: what they come back as in any case;
- `Constraints.ofOperand_toOperand_iff`: they come back unchanged exactly in wire normal form;
- `Constraints.wireNormal_ofOperand`: everything that is read is in wire normal form.
-/

namespace ListQuery

open Json (Value)

namespace Constraints

/-! ## §1 The constraints that are set -/

-- A constraint of one operator is at most one constraint; what is asked of the list of constraints
-- is asked of each of the thirteen.
private theorem find?_setting {α : Type} (o : Option α) (build : α → Constraint)
    (p : Constraint → Bool) :
    ((o.map build).toList).find? p = (o.filter fun a => p (build a)).map build := by
  cases o with
  | none => rfl
  | some a =>
    simp only [Option.map_some, Option.toList_some, List.find?_singleton, Option.filter_some]
    split <;> rfl

private theorem filter_setting {α : Type} (o : Option α) (build : α → Constraint)
    (p : Constraint → Bool) :
    ((o.map build).toList).filter p = ((o.filter fun a => p (build a)).map build).toList := by
  cases o with
  | none => rfl
  | some a =>
    simp only [Option.map_some, Option.toList_some, List.filter_cons, Option.filter_some]
    split <;> rfl

private theorem filter_always {α : Type} (o : Option α) : (o.filter fun _ => true) = o := by
  cases o <;> rfl

private theorem filter_never {α : Type} (o : Option α) : (o.filter fun _ => false) = none := by
  cases o <;> rfl

theorem eq_empty_of_toList {c : Constraints} (h : c.toList = []) : c = {} := by
  cases c
  simp only [toList, List.append_eq_nil_iff, Option.toList_eq_nil_iff, Option.map_eq_none_iff] at h
  simp only [h]

@[simp] theorem toList_equalTo (v : Value) : (equalTo v).toList = [.eq v] := rfl

/-- Dropping the vacuous constraints keeps the others in their order. -/
theorem toList_dropVacuous (c : Constraints) :
    c.dropVacuous.toList = c.toList.filter fun k => !k.isVacuous := by
  simp only [toList, dropVacuous, List.filter_append, filter_setting, Constraint.isVacuous,
    Bool.not_false, filter_always]

theorem dropVacuous_of_isEmpty {c : Constraints} (h : c.isEmpty = true) : c.dropVacuous = {} := by
  apply eq_empty_of_toList
  rw [toList_dropVacuous, List.filter_eq_nil_iff]
  intro k hk
  simpa using List.all_eq_true.1 h k hk

theorem isEmpty_dropVacuous (c : Constraints) : c.dropVacuous.isEmpty = c.isEmpty := by
  unfold isEmpty
  rw [toList_dropVacuous, List.all_filter]
  congr 1
  funext k
  cases k.isVacuous <;> rfl

/-- A set in which nothing is vacuous has nothing to drop. -/
theorem dropVacuous_eq_self {c : Constraints} (h : ∀ k ∈ c.toList, k.isVacuous = false) :
    c.dropVacuous = c := by
  -- Each of the four filters keeps what it is given.
  have hkeep : ∀ {α : Type} (o : Option α) (p : α → Bool), (∀ a, o = some a → p a = true) →
      o.filter p = o := by
    intro α o p hp
    cases o with
    | none => rfl
    | some a => rw [Option.filter_some, if_pos (hp a rfl)]
  simp only [toList, List.mem_append, Option.mem_toList, Option.map_eq_some_iff] at h
  unfold dropVacuous
  congr
  · exact hkeep _ _ fun vs hvs => by simpa [Constraint.isVacuous] using h (.oneOf vs) (by simp [hvs])
  · exact hkeep _ _ fun vs hvs => by simpa [Constraint.isVacuous] using h (.noneOf vs) (by simp [hvs])
  · exact hkeep _ _ fun p hp => by simpa [Constraint.isVacuous] using h (.like p) (by simp [hp])
  · exact hkeep _ _ fun p hp => by simpa [Constraint.isVacuous] using h (.ilike p) (by simp [hp])

theorem mem_toList_set (c : Constraints) (k : Constraint) : k ∈ (c.set k).toList := by
  cases k <;> simp [set, toList]

/-- Where a constraint is set that is not vacuous, something is constrained. -/
theorem isEmpty_set (c : Constraints) {k : Constraint} (h : k.isVacuous = false) :
    (c.set k).isEmpty = false := by
  unfold isEmpty
  rw [List.all_eq_false]
  exact ⟨k, c.mem_toList_set k, by rw [h]; exact Bool.false_ne_true⟩

/-! ## §2 Operator objects -/

/-- The written operand under the key of an operator; `none` if the operator is not set or there is
    no such operator. -/
def written? (c : Constraints) : String → Option Value
  | "$eq" => c.eq
  | "$ne" => c.ne
  | "$gt" => c.gt
  | "$gte" => c.gte
  | "$lt" => c.lt
  | "$lte" => c.lte
  | "$in" => c.oneOf.map .array
  | "$nin" => c.noneOf.map .array
  | "$like" => c.like.map .string
  | "$ilike" => c.ilike.map .string
  | "$between" => c.between.map fun range => .array [range.1, range.2]
  | "$exists" => c.present.map .bool
  | "$null" => c.null.map .bool
  | _ => none

theorem find?_key (c : Constraints) (key : String) :
    (c.toList.find? fun k => k.key = key).map Constraint.operand = c.written? key := by
  -- For the key of an operator, the search skips the constraints of all other operators.
  simp only [toList, List.find?_append, find?_setting, Constraint.key]
  unfold written?
  split
  case h_14 =>
    -- No operator has this key.
    simp only [imp_false] at *
    simp only [@eq_comm _ _ key, *, decide_false, filter_never, Option.map_none, Option.none_or]
  all_goals
    simp only [String.reduceEq, decide_false, decide_true, filter_always, filter_never,
      Option.map_none, Option.none_or, Option.or_none, Option.map_map, Function.comp_def,
      Constraint.operand, Option.map_id_fun', id_eq]

/-- Constraints are listed in the order of the operators. -/
theorem pairwise_toList (c : Constraints) : c.toList.Pairwise (·.ctorIdx < ·.ctorIdx) := by
  -- The operators that occur stand in the order of all thirteen of them.
  have hpart {α : Type} (o : Option α) (build : α → Constraint) (i : Nat)
      (hi : ∀ a, (build a).ctorIdx = i) :
      ((o.map build).toList.map Constraint.ctorIdx).Sublist [i] := by
    cases o with
    | none => exact List.nil_sublist _
    | some a =>
      simp only [Option.map_some, Option.toList_some, List.map_cons, List.map_nil, hi]
      exact List.Sublist.refl _
  have hall : (c.toList.map Constraint.ctorIdx).Sublist
      ([0] ++ [1] ++ [2] ++ [3] ++ [4] ++ [5] ++ [6] ++ [7] ++ [8] ++ [9] ++ [10] ++ [11] ++
        [12]) := by
    simp only [toList, List.map_append]
    repeat' apply List.Sublist.append
    all_goals exact hpart _ _ _ fun _ => rfl
  exact List.pairwise_map.1 (List.Pairwise.sublist hall (by decide))

theorem nodup_keys_toList (c : Constraints) : (c.toList.map Constraint.key).Nodup := by
  -- Operators at different places of the order have different keys.
  have hkey {k j : Constraint} (h : k.ctorIdx < j.ctorIdx) : k.key ≠ j.key := by
    intro heq
    cases k <;> cases j <;> first | exact absurd h (Nat.lt_irrefl _) | simp [Constraint.key] at heq
  exact List.pairwise_map.2 (c.pairwise_toList.imp hkey)

theorem operators_eq_enterAll (c : Constraints) :
    c.operators = enterAll (c.toList.map fun k => (k.key, k.operand)) [] := by
  unfold operators enterAll
  rw [List.foldl_map]

theorem keysIncrease_operators (c : Constraints) : KeysIncrease c.operators := by
  rw [operators_eq_enterAll]
  exact KeysIncrease.enterAll List.Pairwise.nil _

/-- Under the key of an operator, an operator object holds its written operand. -/
theorem member?_operators (c : Constraints) (key : String) :
    Value.member? key c.operators = c.written? key := by
  have hkeys : ((c.toList.map fun k => (k.key, k.operand)).map Prod.fst).Nodup := by
    rw [List.map_map]
    exact c.nodup_keys_toList
  rw [member?_eq_lookup c.keysIncrease_operators, operators_eq_enterAll, lookup_enterAll hkeys,
    List.lookup_nil, Option.or_none, ← find?_key]
  induction c.toList with
  | nil => rfl
  | cons k rest ih =>
    rw [List.map_cons, lookup_cons_ite, ih, List.find?_cons]
    by_cases hk : k.key = key
    · simp [hk]
    · simp [hk, Ne.symm hk]

/-! ## §3 Reading back -/

private theorem shaped?_written {α : Type} {shape : Value → Option α} {write : α → Value}
    {key : String} {members : List (String × Value)} {o : Option α}
    (hmember : Value.member? key members = o.map write) (hshape : ∀ a, shape (write a) = some a)
    (hnull : ∀ a, write a ≠ .null) : shaped? shape key members = some o := by
  unfold shaped?
  rw [hmember]
  cases o with
  | none => rfl
  | some a =>
    rw [Option.map_some]
    split
    · contradiction
    · rename_i heq
      exact absurd (Option.some.inj heq) (hnull a)
    · rename_i v _ heq
      rw [← Option.some.inj heq, hshape, Option.map_some]

/-- An operator object is read as the constraints it was written from, without the vacuous ones. -/
theorem ofMembers?_operators (c : Constraints) : ofMembers? c.operators = some c.dropVacuous := by
  -- The seven operands that have a shape are read back by the reader of their shape.
  have hin : shaped? listOperand? "$in" c.operators = some c.oneOf :=
    shaped?_written (c.member?_operators _) (fun _ => rfl) nofun
  have hnin : shaped? listOperand? "$nin" c.operators = some c.noneOf :=
    shaped?_written (c.member?_operators _) (fun _ => rfl) nofun
  have hlike : shaped? patternOperand? "$like" c.operators = some c.like :=
    shaped?_written (c.member?_operators _) (fun _ => rfl) nofun
  have hilike : shaped? patternOperand? "$ilike" c.operators = some c.ilike :=
    shaped?_written (c.member?_operators _) (fun _ => rfl) nofun
  have hbetween : shaped? rangeOperand? "$between" c.operators = some c.between :=
    shaped?_written (c.member?_operators _) (fun _ => rfl) nofun
  have hexists : shaped? truthOperand? "$exists" c.operators = some c.present :=
    shaped?_written (c.member?_operators _) (fun _ => rfl) nofun
  have hnull : shaped? truthOperand? "$null" c.operators = some c.null :=
    shaped?_written (c.member?_operators _) (fun _ => rfl) nofun
  unfold ofMembers?
  simp only [hin, hnin, hlike, hilike, hbetween, hexists, hnull, member?_operators, written?,
    Option.bind_eq_bind, Option.bind_some, Option.pure_def]

theorem ofOperand_of_not_object {v : Value} (h : v.isObject = false) : ofOperand v = equalTo v := by
  cases v with
  | object members =>
    unfold Value.isObject at h
    contradiction
  | _ => rfl

/-- An object is read as an operator object if that constrains something. -/
theorem ofOperand_object (members : List (String × Value)) :
    ofOperand (.object members) =
      match ofMembers? members with
      | some c => if c.isEmpty then equalTo (.object members) else c
      | none => equalTo (.object members) :=
  rfl

theorem ofOperand_operators {c : Constraints} (h : c.isEmpty = false) :
    ofOperand (.object c.operators) = c.dropVacuous := by
  have hne : c.dropVacuous.isEmpty = false := by rw [isEmpty_dropVacuous, h]
  rw [ofOperand_object, ofMembers?_operators]
  exact if_neg (by rw [hne]; decide)

theorem dropVacuous_of_isPlainEquality {c : Constraints} {v : Value} (heq : c.eq = some v)
    (h : c.isPlainEquality = true) : c.dropVacuous = equalTo v := by
  obtain ⟨-, hrest⟩ := Bool.and_eq_true_iff.1 h
  have hdrop : ({ c with eq := none } : Constraints).dropVacuous = {} :=
    dropVacuous_of_isEmpty hrest
  -- Dropping does not look at the equality, so it can be set aside.
  have hset : c.dropVacuous = { ({ c with eq := none } : Constraints).dropVacuous with eq := c.eq } :=
    rfl
  rw [hset, hdrop, heq]
  rfl

/-- Constraints that constrain something are read back without the vacuous ones. -/
theorem ofOperand_toOperand {c : Constraints} (h : c.isEmpty = false) :
    ofOperand c.toOperand = c.dropVacuous := by
  unfold toOperand
  -- A bare value is written for an equality with no object, and it is read as this equality.
  split
  · rename_i v heq
    split
    · rename_i hbare
      obtain ⟨hplain, hobject⟩ := Bool.and_eq_true_iff.1 hbare
      rw [dropVacuous_of_isPlainEquality heq hplain]
      exact ofOperand_of_not_object (by simpa using hobject)
    · exact ofOperand_operators h
  · exact ofOperand_operators h

/-- What constraints arrive as: the vacuous ones are lost, unless there are no others. Then the
    operator object that is written says nothing as operators, and it is taken for a value. -/
def received (c : Constraints) : Constraints :=
  if c.isEmpty then equalTo (.object c.operators) else c.dropVacuous

/-- Constraints are read back as what they arrive as, whatever they are. -/
theorem ofOperand_toOperand_eq_received (c : Constraints) :
    ofOperand c.toOperand = c.received := by
  unfold received
  by_cases hempty : c.isEmpty = true
  · -- An equality is never vacuous, so there is none to be written as a bare value.
    have hdrop : c.dropVacuous = {} := dropVacuous_of_isEmpty hempty
    have heq : c.eq = none := congrArg Constraints.eq hdrop
    have hwritten : c.toOperand = .object c.operators := by
      unfold toOperand
      rw [heq]
    rw [if_pos hempty, hwritten, ofOperand_object, ofMembers?_operators]
    exact if_pos (by rw [isEmpty_dropVacuous, hempty])
  · rw [if_neg hempty, ofOperand_toOperand (by simpa using hempty)]

/-! ## §4 Wire normal form -/

/-- Whether something is constrained and nothing is constrained vacuously. -/
def WireNormal (c : Constraints) : Prop :=
  c.isEmpty = false ∧ ∀ k ∈ c.toList, k.isVacuous = false

instance (c : Constraints) : Decidable c.WireNormal :=
  inferInstanceAs (Decidable (_ ∧ _))

theorem wireNormal_equalTo (v : Value) : (equalTo v).WireNormal := by
  unfold WireNormal isEmpty
  rw [toList_equalTo]
  constructor
  · rfl
  · intro k hk
    rw [List.mem_singleton.1 hk]
    rfl

theorem exists_of_ofMembers? {members : List (String × Value)} {c : Constraints}
    (h : ofMembers? members = some c) : ∃ c' : Constraints, c = c'.dropVacuous := by
  unfold ofMembers? at h
  simp only [Option.bind_eq_bind, Option.bind_eq_some_iff, Option.pure_def, Option.some.injEq] at h
  obtain ⟨_, -, _, -, _, -, _, -, _, -, _, -, _, -, hc⟩ := h
  exact ⟨_, hc.symm⟩

/-- An operand is read as an equality or as constraints that constrain something. -/
theorem ofOperand_cases (v : Value) : ofOperand v = equalTo v ∨
    ∃ c : Constraints, ofOperand v = c.dropVacuous ∧ c.dropVacuous.isEmpty = false := by
  by_cases hobject : v.isObject = true
  · cases v with
    | object members =>
      rw [ofOperand_object]
      cases hread : ofMembers? members with
      | none =>
        left
        rfl
      | some c =>
        obtain ⟨c', rfl⟩ := exists_of_ofMembers? hread
        by_cases hempty : c'.dropVacuous.isEmpty = true
        · left
          exact if_pos hempty
        · right
          exact ⟨c', if_neg hempty, by simpa using hempty⟩
    | _ => contradiction
  · exact Or.inl (ofOperand_of_not_object (by simpa using hobject))

/-- Whatever the operand, the constraints read from it are in wire normal form. -/
theorem wireNormal_ofOperand (v : Value) : (ofOperand v).WireNormal := by
  rcases ofOperand_cases v with h | ⟨c, h, hempty⟩
  · rw [h]
    exact wireNormal_equalTo v
  · rw [h]
    exact ⟨hempty, fun k hk => isVacuous_of_mem_dropVacuous hk⟩

/-- Constraints come back unchanged from the wire exactly if they are in wire normal form. -/
theorem ofOperand_toOperand_iff (c : Constraints) : ofOperand c.toOperand = c ↔ c.WireNormal := by
  constructor
  · intro h
    rw [← h]
    exact wireNormal_ofOperand _
  · rintro ⟨hempty, hvacuous⟩
    rw [ofOperand_toOperand hempty, dropVacuous_eq_self hvacuous]

end Constraints

end ListQuery
