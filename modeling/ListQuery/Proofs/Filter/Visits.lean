import ListQuery.Proofs.Filter.Address
import ListQuery.Proofs.Json.Members

/-!
# The fields that a walk visits

A walk tells which fields it meets, but not at which nodes. `Filter.visits` is the same walk with the
address of every field's node. Each field of each node is among the visits (`mem_visits`), and they
increase strictly in the order of addresses and then of paths (`pairwise_visits`), so that no field
of a node is visited twice.

What the walk meets decides the relations of a filter: they are the texts in front of the first dot
of the paths that have one (`mem_relations`).

## Main definitions

- `Filter.visits`: the walk with the address of every node;
- `Filter.Precedes`: the order of the visits.
-/

namespace ListQuery

namespace Filter

/-! ## §1 Visits -/

/-- A visit below a node, seen from the node that has it as its branch `i`. -/
def fromBranch (i : Nat) (visit : List Nat × String × Constraints) :
    List Nat × String × Constraints :=
  (i :: visit.1, visit.2)

mutual

/-- The constrained fields of the tree in visiting order, each with the address of its node. -/
def visits : Filter → List (List Nat × String × Constraints)
  | ⟨and, or, not, fields⟩ =>
    fields.entries.map ([], ·) ++ visitsAll 0 and ++ visitsAll and.length or ++
      visitsOption (and.length + or.length) not

/-- The constrained fields of several trees, which are branches from number `i` on. -/
def visitsAll (i : Nat) : List Filter → List (List Nat × String × Constraints)
  | [] => []
  | f :: rest => f.visits.map (fromBranch i) ++ visitsAll (i + 1) rest

def visitsOption (i : Nat) : Option Filter → List (List Nat × String × Constraints)
  | none => []
  | some f => f.visits.map (fromBranch i)

end

/-- The visits to branches that are numbered from `i` on. -/
def branchVisits (i : Nat) (branches : List (Combinator × Filter)) :
    List (List Nat × String × Constraints) :=
  (branches.zipIdx i).flatMap fun branch => branch.1.2.visits.map (fromBranch branch.2)

theorem branchVisits_append (i : Nat) (branches rest : List (Combinator × Filter)) :
    branchVisits i (branches ++ rest) =
      branchVisits i branches ++ branchVisits (i + branches.length) rest := by
  unfold branchVisits
  rw [List.zipIdx_append, List.flatMap_append]

theorem branchVisits_map (c : Combinator) (i : Nat) (fs : List Filter) :
    branchVisits i (fs.map (c, ·)) = visitsAll i fs := by
  induction fs generalizing i with
  | nil => rfl
  | cons f rest ih =>
    rw [visitsAll, ← ih, branchVisits, List.map_cons, List.zipIdx_cons, List.flatMap_cons]
    rfl

theorem visits_eq (f : Filter) :
    f.visits = f.fields.entries.map ([], ·) ++ branchVisits 0 f.branches := by
  obtain ⟨and, or, not, fields⟩ := f
  have hnot : visitsOption (and.length + or.length) not =
      branchVisits (and.length + or.length) (not.toList.map (.not, ·)) := by
    cases not with
    | none => rfl
    | some g => simp [branchVisits, visitsOption]
  rw [visits, branches, branchVisits_append, branchVisits_append, branchVisits_map,
    branchVisits_map, hnot]
  simp

theorem map_snd_branches (f : Filter) : f.branches.map Prod.snd = f.parts := by
  simp [branches, parts, Function.comp_def]

/-- Without the addresses, the visits are the walk. -/
theorem map_snd_visits (f : Filter) : f.visits.map Prod.snd = f.walk := by
  induction f using Filter.induction with
  | node f ih =>
    have hbranches : (branchVisits 0 f.branches).map Prod.snd = f.parts.flatMap walk := by
      calc (branchVisits 0 f.branches).map Prod.snd
          = (f.branches.zipIdx.map Prod.fst).flatMap fun branch => branch.2.visits.map Prod.snd := by
            rw [List.flatMap_map, branchVisits, List.map_flatMap]
            simp only [List.map_map, fromBranch, Function.comp_def]
        _ = f.branches.flatMap fun branch => branch.2.walk := by
            rw [List.zipIdx_map_fst]
            exact List.flatMap_congr fun branch h => ih branch.2 (mem_parts_of_mem_branches h)
        _ = f.parts.flatMap walk := by
            rw [← map_snd_branches, List.flatMap_map]
    rw [visits_eq, walk_eq, List.map_append, hbranches]
    simp [Function.comp_def]

/-! ## §2 Each field of each node -/

theorem mem_branchVisits {f : Filter} {i : Nat} {address : List Nat} {e : String × Constraints} :
    (i :: address, e) ∈ branchVisits 0 f.branches ↔
      ∃ c part, f.branches[i]? = some (c, part) ∧ (address, e) ∈ part.visits := by
  simp only [branchVisits, List.mem_flatMap, List.mem_map, fromBranch, Prod.mk.injEq,
    List.cons.injEq]
  constructor
  · rintro ⟨⟨⟨c, part⟩, j⟩, hbranch, ⟨address', e'⟩, hvisit, ⟨rfl, rfl⟩, rfl⟩
    exact ⟨c, part, List.mk_mem_zipIdx_iff_getElem?.1 hbranch, hvisit⟩
  · rintro ⟨c, part, hbranch, hvisit⟩
    exact ⟨((c, part), i), List.mk_mem_zipIdx_iff_getElem?.2 hbranch, (address, e), hvisit,
      ⟨rfl, rfl⟩, rfl⟩

theorem ne_nil_of_mem_branchVisits {i : Nat} {branches : List (Combinator × Filter)}
    {visit : List Nat × String × Constraints} (h : visit ∈ branchVisits i branches) :
    visit.1 ≠ [] := by
  simp only [branchVisits, List.mem_flatMap, List.mem_map] at h
  obtain ⟨branch, -, visit, -, rfl⟩ := h
  simp [fromBranch]

/-- A field is visited with an address if and only if it is a field of the node there. -/
theorem mem_visits {f : Filter} {address : List Nat} {e : String × Constraints} :
    (address, e) ∈ f.visits ↔ ∃ g, f.node? address = some g ∧ e ∈ g.fields.entries := by
  -- The first step of an address is the branch in which the walk is at that moment.
  induction address generalizing f with
  | nil =>
    rw [visits_eq, List.mem_append]
    have hbranches : ([], e) ∉ branchVisits 0 f.branches :=
      fun h => ne_nil_of_mem_branchVisits h rfl
    simp [hbranches, node?]
  | cons i address ih =>
    rw [visits_eq, List.mem_append, mem_branchVisits]
    constructor
    · rintro (h | ⟨c, part, hbranch, hvisit⟩)
      · simp at h
      · obtain ⟨g, hnode, he⟩ := ih.1 hvisit
        exact ⟨g, (node?_cons hbranch address).trans hnode, he⟩
    · rintro ⟨g, hnode, he⟩
      obtain ⟨c, part, hbranch, hnode⟩ := exists_branch_of_node? hnode
      exact Or.inr ⟨c, part, hbranch, ih.2 ⟨g, hnode, he⟩⟩

/-! ## §3 The order of the visits -/

/-- One visit comes before another if its address does or, at one node, its path. -/
def Precedes (a b : List Nat × String × Constraints) : Prop :=
  a.1 < b.1 ∨ a.1 = b.1 ∧ a.2.1 < b.2.1

theorem Precedes.fromBranch {a b : List Nat × String × Constraints} (h : Precedes a b) (i : Nat) :
    Precedes (fromBranch i a) (fromBranch i b) := by
  rcases h with h | ⟨haddress, hpath⟩
  · exact Or.inl (List.cons_lt_cons_iff.2 (Or.inr ⟨rfl, h⟩))
  · exact Or.inr ⟨congrArg (i :: ·) haddress, hpath⟩

/-- The visits go through the nodes in the order of their addresses, and at each node through the
    fields in the order of their paths. -/
theorem pairwise_visits (f : Filter) : f.visits.Pairwise Precedes := by
  induction f using Filter.induction with
  | node f ih =>
    have hown : (f.fields.entries.map fun e => (([] : List Nat), e)).Pairwise Precedes := by
      rw [List.pairwise_map]
      exact f.fields.keysIncrease.imp fun hlt => Or.inr ⟨rfl, hlt⟩
    have hbranches : (branchVisits 0 f.branches).Pairwise Precedes := by
      refine List.pairwise_flatMap.2 ⟨fun branch hbranch => ?_, ?_⟩
      · have hpart : branch.1.2 ∈ f.parts :=
          mem_parts_of_mem_branches (List.fst_mem_of_mem_zipIdx hbranch)
        exact List.pairwise_map.2 ((ih branch.1.2 hpart).imp fun h => h.fromBranch branch.2)
      · -- Visits to different branches are told apart by the first step of their addresses.
        have hnumbers : f.branches.zipIdx.Pairwise fun a b => a.2 < b.2 := by
          rw [← List.pairwise_map, List.zipIdx_map_snd]
          exact List.pairwise_lt_range' 1
        refine hnumbers.imp fun hlt x hx y hy => ?_
        obtain ⟨visit, -, rfl⟩ := List.mem_map.1 hx
        obtain ⟨visit', -, rfl⟩ := List.mem_map.1 hy
        exact Or.inl (List.cons_lt_cons_iff.2 (Or.inl hlt))
    rw [visits_eq]
    -- The node's own fields have the empty address, which comes before every other.
    refine List.pairwise_append.2 ⟨hown, hbranches, fun a ha b hb => ?_⟩
    obtain ⟨e, -, rfl⟩ := List.mem_map.1 ha
    obtain ⟨i, address, haddress⟩ := List.exists_cons_of_ne_nil (ne_nil_of_mem_branchVisits hb)
    exact Or.inl (haddress ▸ List.nil_lt_cons i address)

/-- No field of a node is visited twice. -/
theorem nodup_visits (f : Filter) : (f.visits.map fun visit => (visit.1, visit.2.1)).Nodup := by
  rw [List.Nodup, List.pairwise_map]
  refine (pairwise_visits f).imp fun {a b} h heq => ?_
  obtain ⟨haddress, hpath⟩ := Prod.mk.inj heq
  rcases h with h | ⟨-, h⟩
  · exact List.lt_irrefl a.1 (haddress ▸ h)
  · exact String.lt_irrefl a.2.1 (hpath ▸ h)

/-! ## §4 Relations -/

/-- A path that goes on behind a dot leads into the relation in front of it. -/
theorem relationOfPath?_append {name : String} (h : '.' ∉ name.toList) (rest : String) :
    relationOfPath? (name ++ "." ++ rest) = some name := by
  have hpath : (name ++ "." ++ rest).toList = name.toList ++ '.' :: rest.toList := by simp
  rw [relationOfPath?, hpath, Text.split_append_cons h]
  cases hrest : Text.split '.' rest.toList with
  | nil => exact absurd hrest (Text.split_ne_nil '.' rest.toList)
  | cons part parts => simp

/-- The relation of a path is the text in front of its first dot. -/
theorem relationOfPath?_eq_some_iff {path name : String} :
    relationOfPath? path = some name ↔
      ∃ rest, path = name ++ "." ++ rest ∧ '.' ∉ name.toList := by
  constructor
  · intro h
    by_cases hdot : '.' ∈ path.toList
    · obtain ⟨front, back, hpath, hfront⟩ := List.eq_append_cons_of_mem hdot
      have hpath : path = String.ofList front ++ "." ++ String.ofList back := by
        apply String.toList_injective
        simp [hpath]
      have hname : '.' ∉ (String.ofList front).toList := by simpa using hfront
      rw [hpath, relationOfPath?_append hname] at h
      obtain rfl := Option.some.inj h
      exact ⟨String.ofList back, hpath, hname⟩
    · rw [relationOfPath?, Text.split_of_notMem hdot] at h
      cases h
  · rintro ⟨rest, rfl, hname⟩
    exact relationOfPath?_append hname rest

/-- The relations increase strictly, so that none is named twice. -/
theorem pairwise_relations (f : Filter) : f.relations.Pairwise (· < ·) :=
  List.pairwise_map.2 (KeyMap.keysIncrease _)

/-- The relations are the texts in front of the first dot of the paths of the walk. -/
theorem mem_relations {f : Filter} {name : String} : name ∈ f.relations ↔
    ∃ e ∈ f.walk, ∃ rest, e.1 = name ++ "." ++ rest ∧ '.' ∉ name.toList := by
  rw [relations, KeyMap.mem_keys_ofList]
  simp only [List.map_map, Function.comp_def, List.map_id', List.mem_filterMap,
    relationOfPath?_eq_some_iff]

end Filter

end ListQuery
