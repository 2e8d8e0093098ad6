import ListQuery.Filter.Wire
import ListQuery.Proofs.Filter.Tree

/-!
# Nodes of a filter

A node of a filter is named by its *address*, the branches to take from the root. The branches of a
node are its parts in visiting order, each with the combinator under which it stands.

Nodes are counted branch by branch, so that the nodes of one branch have consecutive numbers and come
before those of the next (`sizes_take_lt`); every number counts a node (`exists_branch_of_lt`).

## Main definitions

- `Filter.branches`: the branches of a node;
- `Filter.node?`: the node at an address;
- `Filter.descendants`: the number of nodes below the root.
-/

namespace ListQuery

namespace Filter

/-! ## §1 Addresses -/

/-- The filters that a filter combines, each with its combinator, in visiting order. -/
def branches (f : Filter) : List (Combinator × Filter) :=
  f.and.map (.and, ·) ++ f.or.map (.or, ·) ++ f.not.toList.map (.not, ·)

theorem mem_parts_of_mem_branches {f : Filter} {branch : Combinator × Filter}
    (h : branch ∈ f.branches) : branch.2 ∈ f.parts := by
  simp only [branches, List.mem_append, List.mem_map] at h
  rcases h with (⟨g, hg, rfl⟩ | ⟨g, hg, rfl⟩) | ⟨g, hg, rfl⟩
  · exact mem_parts.2 (Or.inl hg)
  · exact mem_parts.2 (Or.inr (Or.inl hg))
  · exact mem_parts.2 (Or.inr (Or.inr (Option.mem_toList.1 hg)))

/-- The node at an address: the root itself, or a node of the branch that comes first. -/
def node? : Filter → List Nat → Option Filter
  | f, [] => some f
  | f, i :: address => f.branches[i]?.bind fun branch => branch.2.node? address

theorem exists_branch_of_node? {f g : Filter} {i : Nat} {address : List Nat}
    (h : f.node? (i :: address) = some g) :
    ∃ c part, f.branches[i]? = some (c, part) ∧ part.node? address = some g := by
  obtain ⟨⟨c, part⟩, hbranch, hnode⟩ := Option.bind_eq_some_iff.1 h
  exact ⟨c, part, hbranch, hnode⟩

theorem node?_append (f : Filter) (address rest : List Nat) :
    f.node? (address ++ rest) = (f.node? address).bind fun g => g.node? rest := by
  induction address generalizing f with
  | nil => rfl
  | cons i address ih =>
    rw [List.cons_append, node?, node?, Option.bind_assoc]
    congr 1
    funext branch
    exact ih branch.2

theorem node?_cons {f : Filter} {i : Nat} {c : Combinator} {part : Filter}
    (h : f.branches[i]? = some (c, part)) (address : List Nat) :
    f.node? (i :: address) = part.node? address := by
  rw [node?, h, Option.bind_some]

/-! ## §2 Counting -/

mutual

/-- The number of nodes below the root. -/
def descendants : Filter → Nat
  | ⟨and, or, not, _⟩ => descendantsAll and + descendantsAll or + descendantsOption not

/-- The number of nodes of several filters. -/
def descendantsAll : List Filter → Nat
  | [] => 0
  | f :: rest => f.descendants + 1 + descendantsAll rest

/-- The number of nodes of a filter that may be absent. -/
def descendantsOption : Option Filter → Nat
  | none => 0
  | some f => f.descendants + 1

end

/-- The number of nodes in branches. -/
def sizes : List (Combinator × Filter) → Nat
  | [] => 0
  | branch :: rest => branch.2.descendants + 1 + sizes rest

theorem sizes_cons (branch : Combinator × Filter) (rest : List (Combinator × Filter)) :
    sizes (branch :: rest) = branch.2.descendants + 1 + sizes rest := rfl

theorem sizes_append (branches rest : List (Combinator × Filter)) :
    sizes (branches ++ rest) = sizes branches + sizes rest := by
  induction branches with
  | nil => exact (Nat.zero_add _).symm
  | cons branch branches ih =>
    rw [List.cons_append, sizes_cons, sizes_cons, ih]
    exact (Nat.add_assoc _ _ _).symm

theorem sizes_map (c : Combinator) (fs : List Filter) : sizes (fs.map (c, ·)) = descendantsAll fs := by
  induction fs with
  | nil => rfl
  | cons f rest ih => rw [List.map_cons, sizes_cons, ih, descendantsAll]

theorem descendants_eq (f : Filter) : f.descendants = sizes f.branches := by
  obtain ⟨and, or, not, fields⟩ := f
  unfold branches
  rw [sizes_append, sizes_append, sizes_map, sizes_map, sizes_map, descendants]
  cases not <;> rfl

/-- The branches in front of one of them have no more nodes than the branches in front of a later
    one, less its own. -/
theorem sizes_take_lt {branches : List (Combinator × Filter)} {i j : Nat} {c : Combinator}
    {part : Filter} (h : branches[i]? = some (c, part)) (hij : i < j) :
    sizes (branches.take i) + part.descendants + 1 ≤ sizes (branches.take j) := by
  obtain ⟨hi, hpart⟩ := List.getElem?_eq_some_iff.1 h
  have hsucc : sizes (branches.take (i + 1)) = sizes (branches.take i) + part.descendants + 1 := by
    rw [List.take_succ_eq_append_getElem hi, sizes_append, hpart]
    rfl
  have hrest := List.take_append_drop (i + 1) (branches.take j)
  rw [List.take_take, Nat.min_eq_left hij] at hrest
  rw [← hrest, sizes_append, hsucc]
  exact Nat.le_add_right _ _

theorem sizes_take_lt_sizes {branches : List (Combinator × Filter)} {i : Nat} {c : Combinator}
    {part : Filter} (h : branches[i]? = some (c, part)) :
    sizes (branches.take i) + part.descendants + 1 ≤ sizes branches := by
  have hlt := sizes_take_lt h (List.getElem?_eq_some_iff.1 h).1
  rwa [List.take_length] at hlt

/-- A number below the number of nodes counts a node of one of the branches. -/
theorem exists_branch_of_lt {branches : List (Combinator × Filter)} {x : Nat}
    (h : x < sizes branches) : ∃ i c part, branches[i]? = some (c, part) ∧
      sizes (branches.take i) ≤ x ∧ x ≤ sizes (branches.take i) + part.descendants := by
  induction branches generalizing x with
  | nil => exact absurd h (Nat.not_lt_zero x)
  | cons branch rest ih =>
    rw [sizes_cons] at h
    by_cases hx : x ≤ branch.2.descendants
    · exact ⟨0, branch.1, branch.2, rfl, Nat.zero_le x, by simpa [sizes] using hx⟩
    · have hrest : x - (branch.2.descendants + 1) < sizes rest := by omega
      obtain ⟨i, c, part, hbranch, hle, hlt⟩ := ih hrest
      refine ⟨i + 1, c, part, hbranch, ?_⟩
      rw [List.take_succ_cons, sizes_cons]
      omega

end Filter

end ListQuery
