import ListQuery.Json.Value

/-!
# Members of an object in key order

An object that is written as a value enters its members one after another into a list in key order.
Such a list holds every key once, so that the last member with a key is the only one, and what it
holds can be read off the entries that were made.

## Main statements

- `member?_eq_lookup`: in a list in key order, the member with a key is found by look-up;
- `lookup_enterAll`: the members after entries have been made, if no key is entered twice;
- `KeyMap.get?_mapValues`: looking up in a map whose values are replaced one by one.
-/

namespace ListQuery

variable {α β : Type}

/-! ## §1 Entering members -/

/-- Enter several members into a list in key order, one after another. -/
def enterAll (entries members : List (String × α)) : List (String × α) :=
  entries.foldl (fun members e => insertKey e.1 e.2 members) members

@[simp] theorem enterAll_nil (members : List (String × α)) : enterAll [] members = members := rfl

@[simp] theorem enterAll_cons (e : String × α) (rest members : List (String × α)) :
    enterAll (e :: rest) members = enterAll rest (insertKey e.1 e.2 members) := rfl

theorem enterAll_append (first second members : List (String × α)) :
    enterAll (first ++ second) members = enterAll second (enterAll first members) :=
  List.foldl_append

theorem KeysIncrease.enterAll {members : List (String × α)} (h : KeysIncrease members)
    (entries : List (String × α)) : KeysIncrease (enterAll entries members) := by
  induction entries generalizing members with
  | nil => exact h
  | cons e rest ih => exact ih (h.insertKey e.1 e.2)

theorem mem_of_mem_enterAll {entries members : List (String × α)} {e : String × α}
    (h : e ∈ enterAll entries members) : e ∈ entries ∨ e ∈ members := by
  induction entries generalizing members with
  | nil => exact Or.inr h
  | cons e' rest ih =>
    rcases ih h with h | h
    · exact Or.inl (List.mem_cons_of_mem _ h)
    · rcases mem_insertKey h with rfl | h
      · exact Or.inl List.mem_cons_self
      · exact Or.inr h

theorem lookup_eq_none_of_ne {k : String} {entries : List (String × α)}
    (h : ∀ e ∈ entries, e.1 ≠ k) : entries.lookup k = none := by
  rw [List.lookup_eq_none_iff]
  intro e he
  simpa using (h e he).symm

/-- After entries have been made, a key holds what was entered under it, and otherwise what it
    held before. -/
theorem lookup_enterAll {entries : List (String × α)} (h : (entries.map Prod.fst).Nodup)
    (members : List (String × α)) (k : String) :
    (enterAll entries members).lookup k = (entries.lookup k).or (members.lookup k) := by
  induction entries generalizing members with
  | nil => rfl
  | cons e rest ih =>
    obtain ⟨hfresh, hrest⟩ := List.nodup_cons.1 h
    rw [enterAll_cons, ih hrest, lookup_insertKey, lookup_cons_ite]
    by_cases hk : k = e.1
    · -- The entries that follow do not have the key of this one.
      have hnone : rest.lookup k = none := by
        apply lookup_eq_none_of_ne
        intro e' he' heq
        exact hfresh (List.mem_map.2 ⟨e', he', by rw [heq, hk]⟩)
      rw [hnone, if_pos hk, if_pos hk]
      rfl
    · rw [if_neg hk, if_neg hk]

theorem KeysIncrease.nodup_keys {entries : List (String × α)} (h : KeysIncrease entries) :
    (entries.map Prod.fst).Nodup := by
  rw [List.Nodup, List.pairwise_map]
  apply List.Pairwise.imp _ h
  intro a b hlt heq
  exact String.lt_irrefl a.1 (heq ▸ hlt)

theorem KeysIncrease.lookup_of_mem {entries : List (String × α)} (h : KeysIncrease entries)
    {e : String × α} (he : e ∈ entries) : entries.lookup e.1 = some e.2 := by
  induction entries with
  | nil => exact absurd he List.not_mem_nil
  | cons e' rest ih =>
    obtain ⟨hhead, hrest⟩ := List.pairwise_cons.1 h
    rw [lookup_cons_ite]
    rcases List.mem_cons.1 he with rfl | he
    · exact if_pos rfl
    · have hne : e.1 ≠ e'.1 := fun heq => String.lt_irrefl e.1 (heq ▸ hhead e he)
      rw [if_neg hne]
      exact ih hrest he

/-! ## §2 The member with a key -/

/-- A list in key order has at most one member with a key, and it is found by look-up. -/
theorem member?_eq_lookup {members : List (String × Json.Value)} (h : KeysIncrease members)
    (k : String) : Json.Value.member? k members = members.lookup k := by
  induction members with
  | nil => rfl
  | cons e rest ih =>
    obtain ⟨k', v⟩ := e
    obtain ⟨hhead, hrest⟩ := List.pairwise_cons.1 h
    rw [lookup_cons_ite, Json.Value.member?, ih hrest]
    -- The last member with a key is the first one, because no other follows it.
    by_cases hk : k = k'
    · subst hk
      have hnone : rest.lookup k = none := lookup_eq_none_of_lt hhead
      simp [hnone]
    · have hk' : k' ≠ k := fun heq => hk heq.symm
      simp only [hk, hk', ↓reduceIte]
      cases rest.lookup k with
      | none => rfl
      | some later => rfl

theorem mem_of_member? {members : List (String × Json.Value)} {k : String} {v : Json.Value}
    (h : Json.Value.member? k members = some v) : (k, v) ∈ members := by
  induction members with
  | nil => cases h
  | cons e rest ih =>
    obtain ⟨k', w⟩ := e
    rw [Json.Value.member?] at h
    cases hlater : Json.Value.member? k rest with
    | some later =>
      rw [hlater] at h
      exact List.mem_cons_of_mem _ (ih (hlater.trans h))
    | none =>
      rw [hlater] at h
      dsimp only at h
      split at h
      · rename_i hk
        obtain rfl := Option.some.inj h
        exact hk ▸ List.mem_cons_self
      · cases h

/-! ## §3 Maps -/

theorem lookup_map_values (g : α → β) (entries : List (String × α)) (k : String) :
    (entries.map fun e => (e.1, g e.2)).lookup k = (entries.lookup k).map g := by
  induction entries with
  | nil => rfl
  | cons e rest ih =>
    rw [List.map_cons, lookup_cons_ite, lookup_cons_ite, ih]
    split <;> rfl

/-- Values may be replaced before a member is entered or afterwards. -/
theorem insertKey_map_values (g : α → β) (k : String) (a : α) (entries : List (String × α)) :
    insertKey k (g a) (entries.map fun e => (e.1, g e.2)) =
      (insertKey k a entries).map fun e => (e.1, g e.2) := by
  induction entries with
  | nil => rfl
  | cons e rest ih =>
    rw [List.map_cons, insertKey, insertKey, ih, apply_ite (List.map _), apply_ite (List.map _)]
    rfl

theorem enterAll_map_values (g : α → β) (entries members : List (String × α)) :
    enterAll (entries.map fun e => (e.1, g e.2)) (members.map fun e => (e.1, g e.2)) =
      (enterAll entries members).map fun e => (e.1, g e.2) := by
  induction entries generalizing members with
  | nil => rfl
  | cons e rest ih =>
    rw [enterAll_cons, ← ih, insertKey_map_values g e.1 e.2 members |>.symm]
    rfl

namespace KeyMap

/-- The map with every value replaced. -/
def mapValues (g : α → β) (m : KeyMap α) : KeyMap β :=
  ⟨m.entries.map fun e => (e.1, g e.2), by
    unfold KeysIncrease
    rw [List.pairwise_map]
    exact m.keysIncrease⟩

theorem get?_of_mem {m : KeyMap α} {e : String × α} (he : e ∈ m.entries) :
    m.get? e.1 = some e.2 :=
  m.keysIncrease.lookup_of_mem he

theorem mem_of_get? {m : KeyMap α} {k : String} {a : α} (h : m.get? k = some a) :
    (k, a) ∈ m.entries := by
  obtain ⟨front, back, heq, -⟩ := List.lookup_eq_some_iff.1 h
  rw [heq]
  exact List.mem_append_right front List.mem_cons_self

theorem mem_keys {m : KeyMap α} {k : String} : k ∈ m.keys ↔ m.get? k ≠ none := by
  rw [get?, Ne, List.lookup_eq_none_iff, keys, List.mem_map]
  simp [@eq_comm _ k]

theorem mem_keys_insert {m : KeyMap α} {k k' : String} {a : α} :
    k' ∈ (m.insert k a).keys ↔ k' = k ∨ k' ∈ m.keys := by
  rw [mem_keys, mem_keys, get?_insert]
  split <;> simp [*]

/-- A map has the keys of the entries it was made of. -/
theorem mem_keys_ofList {entries : List (String × α)} {k : String} :
    k ∈ (ofList entries).keys ↔ k ∈ entries.map Prod.fst := by
  suffices h : ∀ m : KeyMap α, k ∈ (entries.foldl (fun m e => m.insert e.1 e.2) m).keys ↔
      k ∈ entries.map Prod.fst ∨ k ∈ m.keys from
    (h empty).trans (or_iff_left List.not_mem_nil)
  induction entries with
  | nil => simp
  | cons e rest ih =>
    intro m
    rw [List.foldl_cons, ih, mem_keys_insert, List.map_cons, List.mem_cons, or_left_comm, or_assoc]

theorem get?_mapValues (g : α → β) (m : KeyMap α) (k : String) :
    (m.mapValues g).get? k = (m.get? k).map g :=
  lookup_map_values g m.entries k

theorem mapValues_eq_self {g : α → α} {m : KeyMap α} (h : ∀ e ∈ m.entries, g e.2 = e.2) :
    m.mapValues g = m := by
  apply ext
  show m.entries.map _ = m.entries
  conv => rhs; rw [← List.map_id m.entries]
  apply List.map_congr_left
  intro e he
  rw [h e he]
  rfl

end KeyMap

end ListQuery
