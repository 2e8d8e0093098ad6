/-!
# Maps sorted by key

A `KeyMap` holds values under text keys in strictly increasing key order, the order of code
points. It is the order in which a filter's fields are visited and in which a JSON object held as
a value lists its members, so two maps with the same content are the same map.

## Main statements

- `KeyMap.get?_insert`: looking up after an insertion;
- `KeyMap.ext_get?`: a map is determined by its look-ups.
-/

namespace ListQuery

/-! ## §1 Insertion into a sorted list -/

/-- Insert under a key, keeping the order and replacing what the key held. -/
def insertKey {α : Type} (k : String) (a : α) : List (String × α) → List (String × α)
  | [] => [(k, a)]
  | (k', a') :: rest =>
    if k < k' then (k, a) :: (k', a') :: rest
    else if k = k' then (k, a) :: rest
    else (k', a') :: insertKey k a rest

/-- Entries whose keys increase strictly. -/
def KeysIncrease {α : Type} (entries : List (String × α)) : Prop :=
  entries.Pairwise fun a b => a.1 < b.1

instance {α : Type} (entries : List (String × α)) : Decidable (KeysIncrease entries) :=
  inferInstanceAs (Decidable (entries.Pairwise fun a b => a.1 < b.1))

theorem mem_insertKey {α : Type} {k : String} {a : α} {entries : List (String × α)}
    {e : String × α} (h : e ∈ insertKey k a entries) : e = (k, a) ∨ e ∈ entries := by
  induction entries with
  | nil => exact Or.inl (by simpa [insertKey] using h)
  | cons head rest ih =>
    simp only [insertKey] at h
    split at h
    · simpa using h
    · split at h
      · rcases List.mem_cons.1 h with h | h
        · exact Or.inl h
        · exact Or.inr (List.mem_cons_of_mem _ h)
      · rcases List.mem_cons.1 h with h | h
        · exact Or.inr (by simp [h])
        · exact (ih h).imp id (List.mem_cons_of_mem _)

/-- Insertion keeps the order. -/
theorem KeysIncrease.insertKey {α : Type} {entries : List (String × α)}
    (h : KeysIncrease entries) (k : String) (a : α) : KeysIncrease (insertKey k a entries) := by
  induction entries with
  | nil => simp [KeysIncrease, ListQuery.insertKey]
  | cons head rest ih =>
    obtain ⟨k', a'⟩ := head
    have hhead := (List.pairwise_cons.1 h).1
    have hrest : KeysIncrease rest := (List.pairwise_cons.1 h).2
    simp only [ListQuery.insertKey]
    split
    · rename_i hlt
      refine List.pairwise_cons.2 ⟨fun e he => ?_, h⟩
      rcases List.mem_cons.1 he with rfl | he
      · exact hlt
      · exact String.lt_trans hlt (hhead e he)
    · split
      · rename_i heq
        exact List.pairwise_cons.2 ⟨fun e he => by simpa [heq] using hhead e he, hrest⟩
      · rename_i hnlt hne
        refine List.pairwise_cons.2 ⟨fun e he => ?_, ih hrest⟩
        rcases mem_insertKey he with rfl | he
        · -- The new key is not below the head's and not equal to it.
          refine Decidable.byContradiction fun hnot => hne ?_
          exact String.le_antisymm (String.not_lt.1 hnot) (String.not_lt.1 hnlt)
        · exact hhead e he

/-! ## §2 The map -/

/-- Values under text keys, in key order. -/
structure KeyMap (α : Type) where
  entries : List (String × α)
  keysIncrease : KeysIncrease entries

namespace KeyMap

variable {α : Type}

@[ext] theorem ext {m n : KeyMap α} (h : m.entries = n.entries) : m = n := by
  cases m; cases n; simp_all

instance [DecidableEq α] : DecidableEq (KeyMap α) := fun m n =>
  decidable_of_iff (m.entries = n.entries) ⟨ext, fun h => h ▸ rfl⟩

def empty : KeyMap α := ⟨[], List.Pairwise.nil⟩

instance : Inhabited (KeyMap α) := ⟨empty⟩

instance : EmptyCollection (KeyMap α) := ⟨empty⟩

def isEmpty (m : KeyMap α) : Bool := m.entries.isEmpty

def size (m : KeyMap α) : Nat := m.entries.length

def keys (m : KeyMap α) : List String := m.entries.map Prod.fst

def get? (m : KeyMap α) (k : String) : Option α := m.entries.lookup k

/-- The map with `a` under `k`, whatever `k` held before. -/
def insert (m : KeyMap α) (k : String) (a : α) : KeyMap α :=
  ⟨insertKey k a m.entries, m.keysIncrease.insertKey k a⟩

/-- The map of a list of entries; of entries with one key the last one stays. -/
def ofList (entries : List (String × α)) : KeyMap α :=
  entries.foldl (fun m e => m.insert e.1 e.2) empty

end KeyMap

/-! ## §3 Look-up -/

theorem lookup_cons_ite {α : Type} (k : String) (e : String × α) (entries : List (String × α)) :
    (e :: entries).lookup k = if k = e.1 then some e.2 else entries.lookup k := by
  obtain ⟨l, a⟩ := e
  by_cases h : k = l
  · simp [h]
  · have hbeq : (k == l) = false := by simpa using h
    simp [List.lookup_cons, h, hbeq]

theorem lookup_insertKey {α : Type} (k : String) (a : α) (entries : List (String × α))
    (k' : String) :
    (insertKey k a entries).lookup k' = if k' = k then some a else entries.lookup k' := by
  induction entries with
  | nil => by_cases h : k' = k <;> simp [insertKey, lookup_cons_ite, h]
  | cons head rest ih =>
    obtain ⟨l, b⟩ := head
    simp only [insertKey]
    split
    · by_cases h : k' = k <;> simp [lookup_cons_ite, h]
    · split
      · rename_i hkl
        subst hkl
        by_cases h : k' = k <;> simp [lookup_cons_ite, h]
      · rename_i hne
        by_cases h : k' = k
        · subst h
          simp [lookup_cons_ite, ih, hne]
        · simp [lookup_cons_ite, ih, h]

/-- A key that stands before every key of the entries is not among them. -/
theorem lookup_eq_none_of_lt {α : Type} {k : String} {entries : List (String × α)}
    (h : ∀ e ∈ entries, k < e.1) : entries.lookup k = none := by
  induction entries with
  | nil => rfl
  | cons head rest ih =>
    have hne : k ≠ head.1 := fun heq => String.lt_irrefl k (by simpa [heq] using h head (by simp))
    have hrest : rest.lookup k = none := ih fun e he => h e (List.mem_cons_of_mem _ he)
    simp [lookup_cons_ite, hne, hrest]

namespace KeyMap

variable {α : Type}

@[simp] theorem get?_empty (k : String) : (empty : KeyMap α).get? k = none := rfl

/-- After an insertion the key holds the new value and every other key what it held before. -/
theorem get?_insert (m : KeyMap α) (k : String) (a : α) (k' : String) :
    (m.insert k a).get? k' = if k' = k then some a else m.get? k' :=
  lookup_insertKey k a m.entries k'

/-- A map is determined by its look-ups. -/
theorem ext_get? {m n : KeyMap α} (h : ∀ k, m.get? k = n.get? k) : m = n := by
  obtain ⟨xs, hx⟩ := m
  obtain ⟨ys, hy⟩ := n
  apply ext
  change ∀ k, xs.lookup k = ys.lookup k at h
  change xs = ys
  induction xs generalizing ys with
  | nil =>
    cases ys with
    | nil => rfl
    | cons y ys => have := h y.1; simp [lookup_cons_ite] at this
  | cons x xs ih =>
    cases ys with
    | nil => have := h x.1; simp [lookup_cons_ite] at this
    | cons y ys =>
      obtain ⟨k, a⟩ := x
      obtain ⟨l, b⟩ := y
      have hx' := List.pairwise_cons.1 hx
      have hy' := List.pairwise_cons.1 hy
      -- The first keys are equal: the smaller of two would be missing from the other map.
      have hkl : k = l := by
        refine String.le_antisymm ?_ ?_
        · refine String.not_lt.1 fun hlt => ?_
          have hnone : ((k, a) :: xs).lookup l = none := lookup_eq_none_of_lt fun e he => by
            rcases List.mem_cons.1 he with rfl | he
            · exact hlt
            · exact String.lt_trans hlt (hx'.1 e he)
          have := h l
          simp [hnone] at this
        · refine String.not_lt.1 fun hlt => ?_
          have hnone : ((l, b) :: ys).lookup k = none := lookup_eq_none_of_lt fun e he => by
            rcases List.mem_cons.1 he with rfl | he
            · exact hlt
            · exact String.lt_trans hlt (hy'.1 e he)
          have := h k
          simp [hnone] at this
      subst hkl
      have hab : a = b := by simpa [lookup_cons_ite] using h k
      subst hab
      -- The rests agree under every key, and neither of them holds the first one.
      congr 1
      refine ih hx'.2 ys hy'.2 fun k' => ?_
      by_cases hk : k' = k
      · subst hk
        rw [lookup_eq_none_of_lt hx'.1, lookup_eq_none_of_lt hy'.1]
      · simpa [lookup_cons_ite, hk] using h k'

end KeyMap

end ListQuery
