import ListQuery.Json.Reader
import ListQuery.Proofs.Json.Members
import ListQuery.Proofs.Result

/-!
# Values in canonical form

A document denotes the value in which the members of every object stand in key order, the last one
for each key. Values proper are their own canonical form, and what is read from a text is one.

## Main statements

- `Value.canonical_array_iff`, `Value.canonical_object_iff`: arrays and objects in canonical form;
- `separated_preserves`: what every entry preserves, the loop over the entries does;
- `canonical_of_value`: a value that is read is in canonical form.
-/

namespace ListQuery

/-! ## §1 Members in key order -/

/-- Entries in key order stay as they are when they are entered one after another. -/
theorem enterAll_eq_self {α : Type} {entries : List (String × α)} (h : KeysIncrease entries) :
    enterAll entries [] = entries := by
  have hmap : (⟨enterAll entries [], KeysIncrease.enterAll List.Pairwise.nil entries⟩ : KeyMap α) =
      ⟨entries, h⟩ :=
    KeyMap.ext_get? fun k => (lookup_enterAll h.nodup_keys [] k).trans Option.or_none
  exact congrArg KeyMap.entries hmap

theorem map_eq_self_iff {α : Type} {g : α → α} {as : List α} :
    as.map g = as ↔ ∀ a ∈ as, g a = a := by
  induction as with
  | nil => simp
  | cons a rest ih => rw [List.map_cons, List.cons.injEq, ih, List.forall_mem_cons]

namespace Json

namespace Value

/-! ## §2 Canonical form -/

theorem canonicalItems_eq_map (vs : List Value) : canonicalItems vs = vs.map canonical := by
  induction vs with
  | nil => rfl
  | cons v rest ih => rw [canonicalItems, ih, List.map_cons]

theorem canonicalMembers_eq_enterAll (members entered : List (String × Value)) :
    canonicalMembers members entered =
      enterAll (members.map fun m => (m.1, m.2.canonical)) entered := by
  induction members generalizing entered with
  | nil => rfl
  | cons m rest ih =>
    obtain ⟨k, v⟩ := m
    rw [canonicalMembers, ih]
    rfl

theorem canonical_array_iff {vs : List Value} :
    (Value.array vs).Canonical ↔ ∀ v ∈ vs, v.Canonical := by
  unfold Canonical
  rw [canonical, canonicalItems_eq_map, Value.array.injEq]
  exact map_eq_self_iff

/-- The canonical form of an object has its members in key order. -/
theorem canonical_object (members : List (String × Value)) :
    (Value.object members).canonical =
      .object (enterAll (members.map fun m => (m.1, m.2.canonical)) []) := by
  rw [canonical, canonicalMembers_eq_enterAll]

theorem canonical_object_iff {members : List (String × Value)} :
    (Value.object members).Canonical ↔ KeysIncrease members ∧ ∀ m ∈ members, m.2.Canonical := by
  have hself : members.map (fun m => (m.1, m.2.canonical)) = members ↔
      ∀ m ∈ members, m.2.Canonical := by
    rw [map_eq_self_iff]
    refine forall_congr' fun m => imp_congr_right fun _ => ?_
    rw [Prod.ext_iff]
    exact and_iff_right rfl
  have hkeys (h : KeysIncrease members) :
      KeysIncrease (members.map fun m => (m.1, m.2.canonical)) := by
    unfold KeysIncrease
    rwa [List.pairwise_map]
  unfold Canonical at hself ⊢
  rw [canonical_object, Value.object.injEq]
  constructor
  · intro h
    have hincrease : KeysIncrease members := by
      rw [← h]
      exact KeysIncrease.enterAll List.Pairwise.nil _
    rw [enterAll_eq_self (hkeys hincrease)] at h
    exact ⟨hincrease, hself.1 h⟩
  · rintro ⟨hincrease, h⟩
    rw [enterAll_eq_self (hkeys hincrease), hself.2 h]

end Value

/-! ## §3 What is read is in canonical form -/

variable {ε σ : Type}

section Separated

variable {close : Char} (Valid : σ → Prop) {entry : σ → Reader ε σ}
    (hentry : ∀ state, Valid state → ∀ s state' rest, entry state s = .ok (state', rest) →
      Valid state')
include hentry

theorem separatedLoop_preserves {fuel : Nat} {state state' : σ} (hstate : Valid state)
    {s rest : List Char} (h : separatedLoop close entry fuel state s = .ok (state', rest)) :
    Valid state' := by
  induction fuel generalizing state s with
  | zero => cases h
  | succ fuel ih =>
    obtain ⟨⟨next, t⟩, hnext, h⟩ := bind_eq_ok.1 h
    have hvalid := hentry state hstate s next t hnext
    dsimp only at h
    split at h
    · cases h
    · split at h
      · obtain ⟨⟩ := h
        exact hvalid
      · split at h
        · exact ih hvalid h
        · cases h

/-- What every entry preserves, the loop over the entries does. -/
theorem separated_preserves {state state' : σ} (hstate : Valid state) {s rest : List Char}
    (h : separated close entry state s = .ok (state', rest)) : Valid state' := by
  unfold separated at h
  split at h
  · cases h
  · split at h
    · obtain ⟨⟩ := h
      exact hstate
    · exact separatedLoop_preserves Valid hentry hstate h

end Separated

/-- Values of some depth, if those in their arrays and objects are known. -/
theorem canonical_of_value_step {depth : Nat}
    (hinner : ∀ d, depth = d + 1 → ∀ s v rest,
      (value d s : Except (Fault ε) (Value × List Char)) = .ok (v, rest) → v.Canonical)
    {s rest : List Char} {v : Value}
    (h : (value depth s : Except (Fault ε) (Value × List Char)) = .ok (v, rest)) :
    v.Canonical := by
  unfold value at h
  -- The cases are those of the first character; only arrays and objects are made up of values.
  split at h
  · cases h
  · obtain ⟨_, -, ⟨⟩⟩ := bind_eq_ok.1 h
    rfl
  · obtain ⟨_, -, ⟨⟩⟩ := bind_eq_ok.1 h
    rfl
  · obtain ⟨_, -, ⟨⟩⟩ := bind_eq_ok.1 h
    rfl
  · obtain ⟨_, -, ⟨⟩⟩ := bind_eq_ok.1 h
    rfl
  · split at h
    · cases h
    · rename_i d
      obtain ⟨⟨found, _⟩, hfound, ⟨⟩⟩ := bind_eq_ok.1 h
      obtain ⟨⟨reversed, _⟩, hreversed, ⟨⟩⟩ := bind_eq_ok.1 hfound
      have hall : ∀ v ∈ reversed, v.Canonical := by
        refine separated_preserves (fun found => ∀ v ∈ found, Value.Canonical v) ?_
          (fun _ hv => absurd hv List.not_mem_nil) hreversed
        intro found hvalid s found' rest h
        obtain ⟨⟨w, _⟩, hw, ⟨⟩⟩ := bind_eq_ok.1 h
        exact List.forall_mem_cons.2 ⟨hinner d rfl _ _ _ hw, hvalid⟩
      exact Value.canonical_array_iff.2 fun v hv => hall v (List.mem_reverse.1 hv)
  · split at h
    · cases h
    · rename_i d
      obtain ⟨⟨members, _⟩, hmembers, ⟨⟩⟩ := bind_eq_ok.1 h
      refine Value.canonical_object_iff.2 ?_
      refine separated_preserves
        (fun members => KeysIncrease members ∧ ∀ m ∈ members, Value.Canonical m.2) ?_
        ⟨List.Pairwise.nil, nofun⟩ hmembers
      rintro members ⟨hkeys, hvalues⟩ s members' rest h
      obtain ⟨⟨k, _⟩, -, h⟩ := bind_eq_ok.1 h
      obtain ⟨⟨w, _⟩, hw, ⟨⟩⟩ := bind_eq_ok.1 h
      refine ⟨hkeys.insertKey k w, fun m hm => ?_⟩
      rcases mem_insertKey hm with rfl | hm
      · exact hinner d rfl _ _ _ hw
      · exact hvalues m hm
  · obtain ⟨_, -, ⟨⟩⟩ := bind_eq_ok.1 h
    rfl

/-- A value that is read is in canonical form. -/
theorem canonical_of_value {depth : Nat} {s rest : List Char} {v : Value}
    (h : (value depth s : Except (Fault ε) (Value × List Char)) = .ok (v, rest)) :
    v.Canonical := by
  induction depth generalizing s v rest with
  | zero => exact canonical_of_value_step (fun d hd => absurd hd.symm (Nat.succ_ne_zero d)) h
  | succ depth ih =>
    exact canonical_of_value_step (fun d hd _ _ _ hv => by
      obtain rfl := Nat.succ.inj hd
      exact ih hv) h

end Json

end ListQuery
