import ListQuery.Proofs.Filter.Canonical
import ListQuery.Proofs.Json.Record

/-!
# Filter texts that are written anew

A filter that was read from a text can be written as a text again, and this text is read as the same
filter unless it nests deeper than texts may. It can do so if the first text was as deep as allowed:
an object to compare with goes one level down, below the operator that it is compared by.

## Main statements

- `Filter.ofJson_text`: what the text of a document is read as;
- `Filter.readsAs_document`: a filter that was read is read from its document;
- `Filter.ofJson_text_toValue`: what the text of a filter that was read is read as;
- `Filter.ofJson_text_of_nesting_lt`: a filter of a value that leaves one level unused comes back;
- `Filter.ofJson_comparedObject`: an object that is compared with does not leave it.
-/

namespace ListQuery

open Json (Value)
open Nat (pow)

namespace Filter

/-! ## §1 Reading filter texts -/

/-- The text of a document is read as what its value is read as, if it is not too deep. -/
theorem ofJson_text {v : Value} (h : ∀ n ∈ v.numbers, n.Rereads) :
    ofJson v.text =
      if v.nesting ≤ Json.depthLimit then (ofValue v.canonical).mapError .notFilter
      else .error (.invalidJson .malformed) := by
  unfold ofJson Value.text
  rw [String.toList_ofList, Json.whole_value_render h, Value.atDepth]
  split_ifs <;> rfl

/-- A filter that is read from a text is read from a value in canonical form. -/
theorem exists_of_ofJson {text : String} {f : Filter} (h : ofJson text = .ok f) :
    ∃ v : Value, v.Canonical ∧ ofValue v = .ok f := by
  unfold ofJson at h
  split at h
  · cases h
  · rename_i v hwhole
    obtain ⟨⟨v', rest⟩, hvalue, hrest⟩ := bind_eq_ok.1 hwhole
    dsimp only at hrest
    split_ifs at hrest
    · obtain ⟨⟩ := hrest
      exact ⟨v, Json.canonical_of_value hvalue, mapError_eq_ok.1 h⟩
    · cases hrest

/-! ## §2 Filters that were read -/

/-- A filter in wire normal form comes back from its value. -/
theorem WireNormal.ofValue_toValue {f : Filter} (h : f.WireNormal) : ofValue f.toValue = .ok f := by
  have hnames : ∀ e ∈ f.walk, e.1 ∉ combinatorKeys := fun e he => (h e he).1
  have hoperands : ∀ e ∈ f.walk, Constraints.ofOperand e.2.toOperand = e.2 := fun e he =>
    (Constraints.ofOperand_toOperand_iff e.2).2 (h e he).2
  rw [Filter.ofValue_toValue hnames, mapFields_eq_self hoperands]

/-- A filter that was read from a value is read from its document. -/
theorem readsAs_document {v : Value} (hv : v.Canonical) {f : Filter} (h : ofValue v = .ok f)
    (hnumbers : ∀ n ∈ f.document.numbers, n.Rereads) {depth : Nat}
    (hdepth : f.document.nesting ≤ depth) : Json.ReadsAs (reader depth) f.document.render f := by
  intro s hs
  have hvalue := Json.readsAs_value (ε := FilterError) hnumbers hdepth s hs
  rw [(canonical_of_ofValue hv h).document] at hvalue
  unfold reader
  rw [hvalue]
  dsimp only [bind, Except.bind]
  rw [(wireNormal_of_ofValue v h).ofValue_toValue]

/-- The text of a filter that was read from a value is read as this filter, or is too deep. -/
theorem ofJson_text_of_ofValue {v : Value} (hv : v.Canonical) {f : Filter} (h : ofValue v = .ok f)
    (hnumbers : ∀ n ∈ f.toValue.numbers, n.Rereads) :
    ofJson f.toValue.text =
      if f.toValue.nesting ≤ Json.depthLimit then .ok f else .error (.invalidJson .malformed) := by
  have hcanonical : f.toValue.canonical = f.toValue := (canonical_of_ofValue hv h).toValue
  rw [ofJson_text hnumbers, hcanonical, (wireNormal_of_ofValue v h).ofValue_toValue]
  rfl

/-- A filter of a value that leaves one level unused comes back from its text. -/
theorem ofJson_text_of_nesting_lt {v : Value} (hv : v.Canonical) {f : Filter}
    (h : ofValue v = .ok f) (hdepth : v.nesting < Json.depthLimit)
    (hnumbers : ∀ n ∈ f.toValue.numbers, n.Rereads) : ofJson f.toValue.text = .ok f := by
  rw [ofJson_text_of_ofValue hv h hnumbers]
  exact if_pos ((nesting_toValue_le h).trans hdepth)

/-- The text of a filter that was read from a text is read as this filter, or is too deep. -/
theorem ofJson_text_toValue {text : String} {f : Filter} (h : ofJson text = .ok f)
    (hnumbers : ∀ n ∈ f.toValue.numbers, n.Rereads) :
    ofJson f.toValue.text =
      if f.toValue.nesting ≤ Json.depthLimit then .ok f else .error (.invalidJson .malformed) := by
  obtain ⟨v, hv, hread⟩ := exists_of_ofJson h
  exact ofJson_text_of_ofValue hv hread hnumbers

def mixedText : String :=
  "\x7b\"b\":\x7b\"$gte\":18,\"$lt\":6.50\x7d,\"$or\":[\x7b\"a\":\x7b\"c\":[]\x7d\x7d,\x7b\x7d],\"a\":\"x\"\x7d"

/-- A filter with a bound that is no integer, an object to compare with and an empty alternative. -/
def mixedOperands : Filter :=
  let bounded : Filter := ({} : Filter).withField "b" {
    gte := some (.ofInt64 18)
    lt := some (.number (.float ⟨false, 1025 * pow 2 52 + 5 * pow 2 49, by decide⟩)) }
  { bounded.withField "a" (.equalTo (.string "x")) with
    or := [({} : Filter).withField "a" (.equalTo (.object [("c", .array [])])), {}] }

theorem ofJson_text_toValue_mixedOperands :
    ofJson mixedText = .ok mixedOperands ∧
      (∀ n ∈ mixedOperands.toValue.numbers, n.Rereads) ∧
      ofJson mixedOperands.toValue.text = .ok mixedOperands := by
  have hread : ofJson mixedText = .ok mixedOperands := toOption_eq_some.1 (by decide +kernel)
  have hnumbers : ∀ n ∈ mixedOperands.toValue.numbers, n.Rereads := by decide +kernel
  refine ⟨hread, hnumbers, ?_⟩
  rw [ofJson_text_toValue hread hnumbers]
  exact if_pos (by decide +kernel)

/-! ## §3 Objects to compare with -/

/-- The filter that compares one field with a value. -/
def comparing (path : String) (v : Value) : Filter :=
  ({} : Filter).withField path (.equalTo v)

theorem toValue_comparing (path : String) (members : List (String × Value)) :
    (comparing path (.object members)).toValue =
      .object [(path, .object [("$eq", .object members)])] := by
  rw [← Constraints.toOperand_equalTo_object]
  rfl

theorem ofValue_compared {path : String} (hpath : path ∉ combinatorKeys) {v : Value}
    (hv : Constraints.ofOperand v = .equalTo v) :
    ofValue (.object [(path, v)]) = .ok (comparing path v) := by
  have hdraft : (({} : Draft).enter path v) =
      { fields := KeyMap.empty.insert path (Constraints.ofOperand v) } := by
    unfold Draft.enter
    simp only [combinatorKeys, Combinator.key, List.mem_cons, List.not_mem_nil, or_false,
      not_or] at hpath
    rw [if_neg hpath.1, if_neg hpath.2.1, if_neg hpath.2.2]
    rfl
  rw [ofValue, ofMembers_cons, hdraft, hv]
  rfl

/-- From a text that compares a field with an object and is as deep as allowed, a filter is read
    whose own text is not read. -/
theorem ofJson_comparedObject {path : String} (hpath : path ∉ combinatorKeys)
    {members : List (String × Value)} (hcanonical : (Value.object members).Canonical)
    (hoperators : ∀ k : Constraint, Value.member? k.key members = none)
    (hnumbers : ∀ n ∈ (Value.object members).numbers, n.Rereads)
    (hdepth : (Value.object [(path, .object members)]).nesting = Json.depthLimit) :
    ofJson (Value.object [(path, .object members)]).text = .ok (comparing path (.object members)) ∧
      ofJson (comparing path (.object members)).toValue.text = .error (.invalidJson .malformed) := by
  have hvalue : (Value.object [(path, .object members)]).canonical =
      .object [(path, .object members)] := by
    refine Value.canonical_object_iff.2 ⟨List.pairwise_singleton _ _, fun m hm => ?_⟩
    rw [List.mem_singleton.1 hm]
    exact hcanonical
  have hdeeper : (comparing path (.object members)).toValue.nesting = Json.depthLimit + 1 := by
    rw [toValue_comparing, ← hdepth]
    simp only [Value.nesting, Value.nestingMembers, Nat.max_zero]
  constructor
  · rw [ofJson_text, if_pos (le_of_eq hdepth), hvalue, ofValue_compared hpath (Constraints.ofOperand_of_no_operator hoperators)]
    · rfl
    · rwa [Value.numbers, Value.numbersMembers, Value.numbersMembers, List.append_nil]
  · rw [ofJson_text, hdeeper, if_neg (Nat.not_succ_le_self _)]
    rw [toValue_comparing]
    simpa only [Value.numbers, Value.numbersMembers, List.append_nil] using hnumbers

/-- Arrays inside one another. -/
def nestedArrays : Nat → Value
  | 0 => .null
  | depth + 1 => .array [nestedArrays depth]

theorem nesting_nestedArrays (depth : Nat) : (nestedArrays depth).nesting = depth := by
  induction depth with
  | zero => rfl
  | succ depth ih =>
    rw [nestedArrays, Value.nesting, Value.nestingItems, Value.nestingItems, ih, Nat.max_zero]

theorem numbers_nestedArrays (depth : Nat) : (nestedArrays depth).numbers = [] := by
  induction depth with
  | zero => rfl
  | succ depth ih =>
    rw [nestedArrays, Value.numbers, Value.numbersItems, Value.numbersItems, ih, List.append_nil]

theorem canonical_nestedArrays (depth : Nat) : (nestedArrays depth).Canonical := by
  induction depth with
  | zero => rfl
  | succ depth ih => exact Value.canonical_array_iff.2 fun v hv => List.mem_singleton.1 hv ▸ ih

/-- A text of 127 levels that compares a field with an object. -/
theorem ofJson_nestedArrays :
    ofJson (Value.object [("a", .object [("b", nestedArrays 125)])]).text =
        .ok (comparing "a" (.object [("b", nestedArrays 125)])) ∧
      ofJson (comparing "a" (.object [("b", nestedArrays 125)])).toValue.text =
        .error (.invalidJson .malformed) := by
  refine ofJson_comparedObject (by decide) ?_ ?_ ?_ ?_
  · refine Value.canonical_object_iff.2 ⟨List.pairwise_singleton _ _, fun m hm => ?_⟩
    rw [List.mem_singleton.1 hm]
    exact canonical_nestedArrays 125
  · intro k
    cases k <;> rfl
  · rw [Value.numbers, Value.numbersMembers, Value.numbersMembers, numbers_nestedArrays,
      List.append_nil]
    exact fun _ hn => absurd hn List.not_mem_nil
  · simp only [Value.nesting, Value.nestingMembers, nesting_nestedArrays, Nat.max_zero]
    rfl

end Filter

end ListQuery
