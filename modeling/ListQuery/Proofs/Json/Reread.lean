import ListQuery.Proofs.Json.Rendering

/-!
# Values whose numbers are read anew

A document and the value that it denotes may hold numbers that are not read back. Replacing them by
what they are read as changes nothing else: it leaves the nesting as it is, and it makes no difference
whether it happens in the document or in the value.

## Main definitions

- `Number.reread`: what a number is read as, if it is read at all;
- `Value.reread`: the value with the numbers that its numbers are read as.

## Main statements

- `Value.canonical_mapNumbers`: numbers may be replaced in a document or in its value;
- `Value.reread_eq_self_iff`: which values stay as they are;
- `whole_value_reread`: what the text of a document is read as.
-/

namespace ListQuery.Json

variable {ε : Type}

namespace Value

/-! ## §1 Numbers in other places -/

theorem nesting_mapNumbers (g : Number → Number) (v : Value) :
    (v.mapNumbers g).nesting = v.nesting := by
  induction v using Value.induction with
  | null => rfl
  | bool b => rfl
  | number n => rfl
  | string s => rfl
  | array vs ih =>
    rw [mapNumbers_array, nesting, nesting]
    refine congrArg (· + 1) (eq_of_forall_ge_iff fun d => ?_)
    rw [nestingItems_le_iff, nestingItems_le_iff, List.forall_mem_map]
    exact forall₂_congr fun v hv => by rw [ih v hv]
  | object members ih =>
    rw [mapNumbers_object, nesting, nesting]
    refine congrArg (· + 1) (eq_of_forall_ge_iff fun d => ?_)
    rw [nestingMembers_le_iff, nestingMembers_le_iff, List.forall_mem_map]
    exact forall₂_congr fun m hm => by rw [ih m hm]

/-- Numbers may be replaced in a document or in the value that it denotes. -/
theorem canonical_mapNumbers (g : Number → Number) (v : Value) :
    (v.mapNumbers g).canonical = v.canonical.mapNumbers g := by
  induction v using Value.induction with
  | null => rfl
  | bool b => rfl
  | number n => rfl
  | string s => rfl
  | array vs ih =>
    rw [mapNumbers_array, canonical, canonical, canonicalItems_eq_map, canonicalItems_eq_map,
      mapNumbers_array, List.map_map, List.map_map]
    exact congrArg array (List.map_congr_left ih)
  | object members ih =>
    have hmembers : (members.map fun m => (m.1, m.2.mapNumbers g)).map
        (fun m => (m.1, m.2.canonical)) =
        (members.map fun m => (m.1, m.2.canonical)).map fun m => (m.1, m.2.mapNumbers g) := by
      rw [List.map_map, List.map_map]
      exact List.map_congr_left fun m hm => congrArg (Prod.mk m.1) (ih m hm)
    rw [mapNumbers_object, canonical_object, canonical_object, mapNumbers_object, hmembers]
    exact congrArg object (enterAll_map_values (mapNumbers g) _ [])

/-- The value that a document denotes has no other numbers. -/
theorem mem_numbers_of_canonical {v : Value} {n : Number} (h : n ∈ v.canonical.numbers) :
    n ∈ v.numbers := by
  induction v using Value.induction with
  | null => exact h
  | bool b => exact h
  | number m => exact h
  | string s => exact h
  | array vs ih =>
    rw [canonical, canonicalItems_eq_map, mem_numbers_array] at h
    obtain ⟨w, hw, hn⟩ := h
    obtain ⟨v, hv, rfl⟩ := List.mem_map.1 hw
    exact mem_numbers_array.2 ⟨v, hv, ih v hv hn⟩
  | object members ih =>
    rw [canonical_object, mem_numbers_object] at h
    obtain ⟨m', hm', hn⟩ := h
    rcases mem_of_mem_enterAll hm' with hm' | hm'
    · obtain ⟨m, hm, rfl⟩ := List.mem_map.1 hm'
      exact mem_numbers_object.2 ⟨m, hm, ih m hm hn⟩
    · exact absurd hm' List.not_mem_nil

end Value

/-! ## §2 Numbers that are read anew -/

/-- What a number is read as from its own text, if it is read at all. -/
def Number.reread (n : Number) : Number :=
  n.reread?.getD n

theorem Number.reread?_eq_reread {n : Number} (h : n.reread?.isSome) :
    n.reread? = some n.reread := by
  obtain ⟨m, hm⟩ := Option.isSome_iff_exists.1 h
  rw [reread, hm]
  rfl

theorem Number.reread_eq_self_iff {n : Number} (h : n.reread?.isSome) :
    n.reread = n ↔ n.Rereads := by
  rw [rereads_iff_reread?, reread?_eq_reread h, Option.some_inj]

/-- The value with the numbers that its numbers are read as. -/
def Value.reread (v : Value) : Value :=
  v.mapNumbers Number.reread

theorem Value.reread_eq_self_iff {v : Value} (h : ∀ n ∈ v.numbers, n.reread?.isSome) :
    v.reread = v ↔ ∀ n ∈ v.numbers, n.Rereads :=
  mapNumbers_eq_self_iff.trans
    (forall₂_congr fun n hn => Number.reread_eq_self_iff (h n hn))

/-- The text of a document is read as the value of the document with the numbers that its numbers
    are read as. -/
theorem whole_value_reread {v : Value} (h : ∀ n ∈ v.numbers, n.reread?.isSome) {depth : Nat}
    (hdepth : v.nesting ≤ depth) :
    (whole (value depth) v.render : Except (Fault ε) Value) = .ok v.canonical.reread := by
  have hread : v.RereadAs ε (v.mapNumbers Number.reread) :=
    rereadAs_mapNumbers Number.reread fun n hn => Number.reread?_eq_reread (h n hn)
  rw [hread.whole, Value.atDepth, Value.nesting_mapNumbers, if_pos hdepth,
    Value.canonical_mapNumbers]
  rfl

end ListQuery.Json
