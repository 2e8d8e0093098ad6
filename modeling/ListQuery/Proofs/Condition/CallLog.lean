import ListQuery.Condition.CallLog
import ListQuery.Proofs.Filter.Address

/-!
# Builders are used once

Applying a filter takes an isolated builder for every node below the root, and uses it once: it
makes the calls for the node on it, and then combines it into the builder of the node above. A
builder that is dropped, used twice or combined elsewhere would change the condition without any
error, so the calls are pinned down here, for filters of any shape.

The calls for a node are one stretch of the log, and the stretches of its branches lie within it, one
behind another (`script_eq`). The builders of a stretch have consecutive numbers, and this keeps the
calls on different builders apart.

## Main definitions

- `BuilderCall.step`: a call on the innermost of the builders in use;
- `CallLog.Lifetime`, `CallLog.UsedOnce`: what becomes of one builder, and of all of them.

## Main statements

- `CallLog.writes_apply`: what applying a filter adds to a log;
- `CallLog.lifetime_script`: what becomes of the builder of a node;
- `CallLog.foldlM_step_script`: the builders in use are a stack;
- `CallLog.usedOnce_ofFilter`: every builder is used once.
-/

namespace ListQuery

/-! ## §1 Calls -/

namespace BuilderCall

/-- The builders that a call is about. -/
def builders : BuilderCall → List Nat
  | field b _ _ => [b]
  | isolate source new => [source, new]
  | combine _ into sub => [into, sub]

/-- The builder that a call takes or gives back. -/
def sub? : BuilderCall → Option Nat
  | field _ _ _ => none
  | isolate _ new => some new
  | combine _ _ sub => some sub

/-- The constraints that a call applies to a builder, with their path. -/
def fieldOn? (b : Nat) : BuilderCall → Option (String × Constraints)
  | field b' path c => if b' = b then some (path, c) else none
  | isolate _ _ | combine _ _ _ => none

/-- The builders in use after a call, the innermost one first. Only the innermost builder can be
    used, and it can be combined only into the one around it. -/
def step : (inUse : List Nat) → BuilderCall → Option (List Nat)
  | b :: outer, field b' _ _ => if b' = b then some (b :: outer) else none
  | b :: outer, isolate source new => if source = b then some (new :: b :: outer) else none
  | b :: parent :: outer, combine _ into sub =>
    if sub = b ∧ into = parent then some (parent :: outer) else none
  | _, _ => none

theorem fieldOn?_eq_none {b : Nat} {call : BuilderCall} (h : b ∉ call.builders) :
    call.fieldOn? b = none := by
  cases call with
  | field b' path c => exact if_neg fun heq => h (by simp [builders, heq])
  | isolate source new => rfl
  | combine c into sub => rfl

theorem mem_builders_of_sub? {call : BuilderCall} {x : Nat} (h : x ∈ call.sub?) :
    x ∈ call.builders := by
  cases call with
  | field b path c => cases h
  | isolate source new => simp [builders, Option.mem_some.1 h]
  | combine c into sub => simp [builders, Option.mem_some.1 h]

end BuilderCall

namespace CallLog

open ListQuery.Filter (sizes)

/-- A run that ends with builder `b`, adds `calls` to the log, and takes the next free number from
    `n` to `n'`. -/
def Writes (run : StateM CallLog Nat) (b n : Nat) (calls : List BuilderCall) (n' : Nat) : Prop :=
  ∀ log, run.run ⟨log, n⟩ = (b, ⟨log ++ calls, n'⟩)

theorem writes_pure (b n : Nat) : Writes (pure b) b n [] n := by
  intro log
  rw [List.append_nil]
  rfl

theorem Writes.bind {run : StateM CallLog Nat} {next : Nat → StateM CallLog Nat}
    {b b' n k n' : Nat} {calls calls' : List BuilderCall} (h : Writes run b n calls k)
    (hnext : Writes (next b) b' k calls' n') : Writes (run >>= next) b' n (calls ++ calls') n' := by
  intro log
  rw [StateT.run_bind, h, ← List.append_assoc]
  exact hnext (log ++ calls)

theorem writes_field (b n : Nat) (path : String) (c : Constraints) :
    Writes (ops.field b path c) b n [.field b path c] n :=
  fun _ => rfl

theorem writes_isolate (b n : Nat) : Writes (ops.isolate b) n n [.isolate b n] (n + 1) :=
  fun _ => rfl

theorem writes_combine (c : Combinator) (b sub n : Nat) :
    Writes (combine c b sub) b n [.combine c b sub] n :=
  fun _ => rfl

/-- The calls that applying a filter to builder `b` makes while `n` is the next free number. -/
def script (f : Filter) (b n : Nat) : List BuilderCall :=
  ((f.apply ops b).run ⟨[], n⟩).2.calls

/-- The calls for branches, one branch after another. -/
def branchScript (b : Nat) : (n : Nat) → List (Combinator × Filter) → List BuilderCall
  | _, [] => []
  | n, (c, g) :: rest =>
    .isolate b n :: script g n (n + 1) ++ .combine c b n :: branchScript b (n + 1 + g.descendants) rest

theorem branchScript_append (b n : Nat) (branches rest : List (Combinator × Filter)) :
    branchScript b n (branches ++ rest) =
      branchScript b n branches ++ branchScript b (n + sizes branches) rest := by
  induction branches generalizing n with
  | nil => rfl
  | cons branch branches ih =>
    have hnext : n + 1 + branch.2.descendants + sizes branches = n + sizes (branch :: branches) := by
      rw [Filter.sizes_cons]
      omega
    rw [List.cons_append, branchScript, ih, hnext, branchScript]
    simp only [List.append_assoc, List.cons_append]

/-- The calls for the fields of a node. -/
def fieldScript (b : Nat) (entries : List (String × Constraints)) : List BuilderCall :=
  entries.map fun e => .field b e.1 e.2

theorem writes_applyFields (b n : Nat) (entries : List (String × Constraints)) :
    Writes (Filter.applyFields ops b entries) b n (fieldScript b entries) n := by
  induction entries with
  | nil => exact writes_pure b n
  | cons e rest ih =>
    obtain ⟨path, c⟩ := e
    exact (writes_field b n path c).bind ih

/-- A part is applied to a builder of its own, which is then combined with the node's. -/
theorem writes_part {f : Filter}
    (h : ∀ b n, Writes (f.apply ops b) b n (script f b n) (n + f.descendants)) (c : Combinator)
    (b n : Nat) :
    Writes (do combine c b (← f.apply ops (← ops.isolate b))) b n (branchScript b n [(c, f)])
      (n + 1 + f.descendants) := by
  have hcalls : branchScript b n [(c, f)] =
      [.isolate b n] ++ (script f n (n + 1) ++ [.combine c b n]) := rfl
  rw [hcalls]
  exact (writes_isolate b n).bind ((h n (n + 1)).bind (writes_combine c b n _))

theorem writes_applyAll {fs : List Filter}
    (h : ∀ f ∈ fs, ∀ b n, Writes (f.apply ops b) b n (script f b n) (n + f.descendants))
    (c : Combinator) (b n : Nat) :
    Writes (Filter.applyAll ops (combine c) b fs) b n (branchScript b n (fs.map (c, ·)))
      (n + Filter.descendantsAll fs) := by
  induction fs generalizing n with
  | nil =>
    rw [Filter.applyAll]
    exact writes_pure b n
  | cons f rest ih =>
    have hpart := writes_part (h f List.mem_cons_self) c b n
    have hrest := ih (fun g hg => h g (List.mem_cons_of_mem f hg)) (n + 1 + f.descendants)
    have hnext : n + Filter.descendantsAll (f :: rest) =
        n + 1 + f.descendants + Filter.descendantsAll rest := by
      rw [Filter.descendantsAll]
      omega
    have hcalls : branchScript b n ((f :: rest).map (c, ·)) =
        branchScript b n [(c, f)] ++
          branchScript b (n + 1 + f.descendants) (rest.map (c, ·)) := by
      simp [branchScript]
    rw [hnext, hcalls, Filter.applyAll]
    have hboth : Writes
        ((do combine c b (← f.apply ops (← ops.isolate b))) >>= fun b =>
          Filter.applyAll ops (combine c) b rest) b n _ _ := hpart.bind hrest
    simpa only [bind_assoc] using hboth

theorem writes_applyOption {o : Option Filter}
    (h : ∀ f ∈ o, ∀ b n, Writes (f.apply ops b) b n (script f b n) (n + f.descendants))
    (b n : Nat) :
    Writes (Filter.applyOption ops b o) b n (branchScript b n (o.toList.map (.not, ·)))
      (n + Filter.descendantsOption o) := by
  cases o with
  | none =>
    rw [Filter.applyOption]
    exact writes_pure b n
  | some f =>
    have hpart := writes_part (h f rfl) .not b n
    rw [Nat.add_right_comm] at hpart
    rw [Filter.applyOption]
    exact hpart

/-- What a node adds to the log, if this is known of its parts. -/
theorem writes_node {f : Filter}
    (h : ∀ g ∈ f.parts, ∀ b n, Writes (g.apply ops b) b n (script g b n) (n + g.descendants))
    (b n : Nat) :
    Writes (f.apply ops b) b n (fieldScript b f.fields.entries ++ branchScript b n f.branches)
      (n + f.descendants) := by
  obtain ⟨and, or, not, fields⟩ := f
  have hcalls : branchScript b n (Filter.branches ⟨and, or, not, fields⟩) =
      branchScript b n (and.map (.and, ·)) ++
        (branchScript b (n + Filter.descendantsAll and) (or.map (.or, ·)) ++
          branchScript b (n + Filter.descendantsAll and + Filter.descendantsAll or)
            (not.toList.map (.not, ·))) := by
    unfold Filter.branches
    rw [branchScript_append, branchScript_append, Filter.sizes_append, Filter.sizes_map,
      Filter.sizes_map, ← Nat.add_assoc, List.append_assoc]
  rw [hcalls, Filter.apply, Filter.descendants, ← Nat.add_assoc, ← Nat.add_assoc]
  refine Writes.bind (writes_applyFields b n fields.entries) ?_
  refine Writes.bind (writes_applyAll (fun g hg => ?_) .and b n) ?_
  · exact h g (Filter.mem_parts.2 (Or.inl hg))
  refine Writes.bind (writes_applyAll (fun g hg => ?_) .or b _) ?_
  · exact h g (Filter.mem_parts.2 (Or.inr (Or.inl hg)))
  exact writes_applyOption (fun g hg => h g (Filter.mem_parts.2 (Or.inr (Or.inr hg)))) b _

theorem Writes.script_eq {f : Filter} {b n n' : Nat} {calls : List BuilderCall}
    (h : Writes (f.apply ops b) b n calls n') : script f b n = calls := by
  unfold script
  rw [h]
  rfl

/-- Applying a filter to a builder gives the same builder back, and takes one number for every node
    below the root. -/
theorem writes_apply (f : Filter) (b n : Nat) :
    Writes (f.apply ops b) b n (script f b n) (n + f.descendants) := by
  induction f using Filter.induction generalizing b n with
  | node f ih =>
    have hnode := writes_node ih b n
    rwa [hnode.script_eq]

/-- The calls for the fields of a node come before those for its branches. -/
theorem script_eq (f : Filter) (b n : Nat) :
    script f b n = fieldScript b f.fields.entries ++ branchScript b n f.branches :=
  (writes_node (fun g _ => writes_apply g) b n).script_eq

/-! ## §2 Builders -/

/-- The calls for a branch are one stretch of the calls for the node. -/
theorem script_of_branch {f : Filter} {i : Nat} {c : Combinator} {g : Filter}
    (h : f.branches[i]? = some (c, g)) (b n : Nat) :
    script f b n = fieldScript b f.fields.entries ++ branchScript b n (f.branches.take i) ++
      .isolate b (n + sizes (f.branches.take i)) ::
        script g (n + sizes (f.branches.take i)) (n + sizes (f.branches.take i) + 1) ++
      .combine c b (n + sizes (f.branches.take i)) ::
        branchScript b (n + sizes (f.branches.take i) + 1 + g.descendants)
          (f.branches.drop (i + 1)) := by
  obtain ⟨hi, hpart⟩ := List.getElem?_eq_some_iff.1 h
  have hbranches : f.branches = f.branches.take i ++ (c, g) :: f.branches.drop (i + 1) := by
    rw [← hpart, ← List.drop_eq_getElem_cons hi, List.take_append_drop]
  have hsplit := branchScript_append b n (f.branches.take i) ((c, g) :: f.branches.drop (i + 1))
  rw [← hbranches, branchScript] at hsplit
  rw [script_eq, hsplit]
  simp only [List.append_assoc, List.cons_append]

/-- A call on builder `b` and on builders numbered from `n` to `m`, which takes or gives back only
    the latter. -/
structure Within (b n m : Nat) (call : BuilderCall) : Prop where
  builders : ∀ x ∈ call.builders, x = b ∨ n ≤ x ∧ x < m
  sub : ∀ x ∈ call.sub?, n ≤ x

theorem Within.mono {b n m n' m' : Nat} {call : BuilderCall} (h : Within b n m call) (hn : n' ≤ n)
    (hm : m ≤ m') : Within b n' m' call := by
  refine ⟨fun x hx => ?_, fun x hx => Nat.le_trans hn (h.sub x hx)⟩
  have hrange := h.builders x hx
  omega

theorem within_fieldScript (b n m : Nat) (entries : List (String × Constraints)) :
    ∀ call ∈ fieldScript b entries, Within b n m call := by
  intro call hcall
  obtain ⟨e, -, rfl⟩ := List.mem_map.1 hcall
  exact ⟨fun x hx => Or.inl (List.mem_singleton.1 hx), nofun⟩

theorem within_branchScript {branches : List (Combinator × Filter)}
    (h : ∀ branch ∈ branches, ∀ b n, ∀ call ∈ script branch.2 b n,
      Within b n (n + branch.2.descendants) call) (b n : Nat) :
    ∀ call ∈ branchScript b n branches, Within b n (n + sizes branches) call := by
  induction branches generalizing n with
  | nil =>
    intro call hcall
    exact absurd hcall List.not_mem_nil
  | cons branch rest ih =>
    obtain ⟨c, g⟩ := branch
    have hsizes : n + sizes ((c, g) :: rest) = n + 1 + g.descendants + sizes rest := by
      rw [Filter.sizes_cons]
      dsimp only
      omega
    intro call hcall
    rw [hsizes]
    simp only [branchScript, List.cons_append, List.mem_cons, List.mem_append] at hcall
    rcases hcall with rfl | hcall | rfl | hcall
    · constructor <;> simp [BuilderCall.builders, BuilderCall.sub?]
      omega
    · -- Within the part, the builder around its branches is one of those taken here.
      have hpart := h (c, g) List.mem_cons_self n (n + 1) call hcall
      dsimp only at hpart
      constructor
      · intro x hx
        have hrange := hpart.builders x hx
        omega
      · intro x hx
        have hrange := hpart.sub x hx
        omega
    · constructor <;> simp [BuilderCall.builders, BuilderCall.sub?]
      omega
    · exact (ih (fun g hg => h g (List.mem_cons_of_mem _ hg)) _ call hcall).mono
        (by omega) (Nat.le_refl _)

/-- The calls for a node are on its own builder and on those taken for the nodes below. -/
theorem within_script (f : Filter) (b n : Nat) :
    ∀ call ∈ script f b n, Within b n (n + f.descendants) call := by
  induction f using Filter.induction generalizing b n with
  | node f ih =>
    rw [script_eq, Filter.descendants_eq]
    intro call hcall
    rcases List.mem_append.1 hcall with hcall | hcall
    · exact within_fieldScript b _ _ _ call hcall
    · exact within_branchScript
        (fun branch hbranch => ih branch.2 (Filter.mem_parts_of_mem_branches hbranch)) b n call hcall

theorem within_branches (branches : List (Combinator × Filter)) (b n : Nat) :
    ∀ call ∈ branchScript b n branches, Within b n (n + sizes branches) call :=
  within_branchScript (fun branch _ => within_script branch.2) b n

/-- The calls beside those for a branch are on none of the builders taken for the branch. -/
theorem notMem_builders_beside {f g : Filter} {i b n x : Nat} (hb : b < n)
    (hle : n + sizes (f.branches.take i) ≤ x)
    (hge : x ≤ n + sizes (f.branches.take i) + g.descendants) {call : BuilderCall}
    (hcall : call ∈ fieldScript b f.fields.entries ++ branchScript b n (f.branches.take i) ∨
      call ∈ branchScript b (n + sizes (f.branches.take i) + 1 + g.descendants)
        (f.branches.drop (i + 1))) : x ∉ call.builders := by
  intro hx
  rcases hcall with hcall | hcall
  · rcases List.mem_append.1 hcall with hcall | hcall
    · have hrange := (within_fieldScript b n n _ call hcall).builders x hx
      omega
    · have hrange := (within_branches _ b n call hcall).builders x hx
      omega
  · have hrange := (within_branches _ b _ call hcall).builders x hx
    omega

/-! ## §3 The builder of a node -/

/-- The builder of the node at an address, when builder `b` is the root's and the ones below are
    numbered from `n`. -/
def builderAt : (f : Filter) → (b n : Nat) → List Nat → Nat
  | _, b, _, [] => b
  | f, _, n, i :: address =>
    match f.branches[i]? with
    | some branch =>
      builderAt branch.2 (n + sizes (f.branches.take i)) (n + sizes (f.branches.take i) + 1) address
    | none => 0

theorem builderAt_cons {f : Filter} {i : Nat} {c : Combinator} {g : Filter}
    (h : f.branches[i]? = some (c, g)) (b n : Nat) (address : List Nat) :
    builderAt f b n (i :: address) = builderAt g (n + sizes (f.branches.take i))
      (n + sizes (f.branches.take i) + 1) address := by
  rw [builderAt, h]

/-- The builders below the root are numbered from `n`. -/
theorem builderAt_range {f g : Filter} {address : List Nat} (h : f.node? address = some g)
    (b n : Nat) : builderAt f b n address = b ∨
      n ≤ builderAt f b n address ∧ builderAt f b n address < n + f.descendants := by
  induction address generalizing f b n with
  | nil => exact Or.inl rfl
  | cons i address ih =>
    obtain ⟨c, part, hbranch, hnode⟩ := Filter.exists_branch_of_node? h
    have hinner := ih hnode (n + sizes (f.branches.take i)) (n + sizes (f.branches.take i) + 1)
    have hsizes := Filter.sizes_take_lt_sizes hbranch
    rw [builderAt_cons hbranch, Filter.descendants_eq]
    omega

/-- The builders in a branch have the numbers of the branch. -/
theorem builderAt_cons_range {f g part : Filter} {i : Nat} {c : Combinator} {address : List Nat}
    (hbranch : f.branches[i]? = some (c, part)) (h : f.node? (i :: address) = some g) (b n : Nat) :
    n + sizes (f.branches.take i) ≤ builderAt f b n (i :: address) ∧
      builderAt f b n (i :: address) ≤ n + sizes (f.branches.take i) + part.descendants := by
  rw [Filter.node?_cons hbranch] at h
  have hinner := builderAt_range h (n + sizes (f.branches.take i))
    (n + sizes (f.branches.take i) + 1)
  rw [builderAt_cons hbranch]
  omega

/-- Different nodes have different builders. -/
theorem builderAt_injective {f g g' : Filter} {b n : Nat} (hb : b < n) {address address' : List Nat}
    (h : f.node? address = some g) (h' : f.node? address' = some g')
    (heq : builderAt f b n address = builderAt f b n address') : address = address' := by
  induction address generalizing f b n address' with
  | nil =>
    cases address' with
    | nil => rfl
    | cons i address' =>
      obtain ⟨c, part, hbranch, -⟩ := Filter.exists_branch_of_node? h'
      have hrange := builderAt_cons_range hbranch h' b n
      rw [← heq, builderAt] at hrange
      omega
  | cons i address ih =>
    obtain ⟨c, part, hbranch, hnode⟩ := Filter.exists_branch_of_node? h
    have hrange := builderAt_cons_range hbranch h b n
    cases address' with
    | nil =>
      rw [heq, builderAt] at hrange
      omega
    | cons j address' =>
      obtain ⟨c', part', hbranch', hnode'⟩ := Filter.exists_branch_of_node? h'
      have hrange' := builderAt_cons_range hbranch' h' b n
      -- The numbers of one branch end before those of the next begin.
      rcases Nat.lt_trichotomy i j with hij | rfl | hij
      · have hlt := Filter.sizes_take_lt hbranch hij
        omega
      · obtain ⟨rfl, rfl⟩ := Prod.mk.inj (Option.some.inj (hbranch.symm.trans hbranch'))
        rw [builderAt_cons hbranch, builderAt_cons hbranch] at heq
        rw [ih (Nat.lt_add_one _) hnode hnode' heq]
      · have hlt := Filter.sizes_take_lt hbranch' hij
        omega

/-- Every number that is taken is that of a node below the root. -/
theorem exists_builderAt (f : Filter) (b n : Nat) {x : Nat} (hle : n ≤ x)
    (hlt : x < n + f.descendants) :
    ∃ i address g, f.node? (i :: address) = some g ∧ builderAt f b n (i :: address) = x := by
  induction f using Filter.induction generalizing b n with
  | node f ih =>
    rw [Filter.descendants_eq] at hlt
    have hcount : x - n < sizes f.branches := by omega
    obtain ⟨i, c, part, hbranch, hfrom, hto⟩ := Filter.exists_branch_of_lt hcount
    by_cases hx : x = n + sizes (f.branches.take i)
    · refine ⟨i, [], part, Filter.node?_cons hbranch [], ?_⟩
      rw [builderAt_cons hbranch, builderAt, hx]
    · have hpart : part ∈ f.parts :=
        Filter.mem_parts_of_mem_branches (List.mem_of_getElem? hbranch)
      obtain ⟨j, address, g, hnode, hnumber⟩ := ih part hpart (n + sizes (f.branches.take i))
        (n + sizes (f.branches.take i) + 1) (by omega) (by omega)
      refine ⟨i, j :: address, g, ?_, ?_⟩
      · rw [Filter.node?_cons hbranch, hnode]
      · rw [builderAt_cons hbranch, hnumber]

/-! ## §4 The calls on one builder -/

theorem filterMap_fieldOn?_eq_nil {b : Nat} {calls : List BuilderCall}
    (h : ∀ call ∈ calls, b ∉ call.builders) : calls.filterMap (BuilderCall.fieldOn? b) = [] :=
  List.filterMap_eq_nil_iff.2 fun call hcall => BuilderCall.fieldOn?_eq_none (h call hcall)

theorem filterMap_fieldOn?_fieldScript (b : Nat) (entries : List (String × Constraints)) :
    (fieldScript b entries).filterMap (BuilderCall.fieldOn? b) = entries := by
  unfold fieldScript
  rw [List.filterMap_map]
  have hsome : (BuilderCall.fieldOn? b ∘ fun e : String × Constraints => .field b e.1 e.2) = some :=
    funext fun e => if_pos rfl
  rw [hsome, List.filterMap_some]

/-- No field is applied between the branches of a node. -/
theorem filterMap_fieldOn?_branchScript {b n : Nat} (hb : b < n)
    (branches : List (Combinator × Filter)) :
    (branchScript b n branches).filterMap (BuilderCall.fieldOn? b) = [] := by
  induction branches generalizing n with
  | nil => rfl
  | cons branch rest ih =>
    have hpart : (script branch.2 n (n + 1)).filterMap (BuilderCall.fieldOn? b) = [] := by
      refine filterMap_fieldOn?_eq_nil fun call hcall hmem => ?_
      have hrange := (within_script branch.2 n (n + 1) call hcall).builders b hmem
      omega
    have hrest := ih (n := n + 1 + branch.2.descendants) (by omega)
    rw [branchScript, List.filterMap_append, List.filterMap_cons, List.filterMap_cons, hpart, hrest]
    rfl

/-- The builder of a node gets the fields of the node, in path order. -/
theorem filterMap_fieldOn?_script {f g : Filter} {b n : Nat} (hb : b < n) {address : List Nat}
    (h : f.node? address = some g) :
    (script f b n).filterMap (BuilderCall.fieldOn? (builderAt f b n address)) =
      g.fields.entries := by
  induction address generalizing f b n with
  | nil =>
    obtain rfl := Option.some.inj h
    rw [builderAt, script_eq, List.filterMap_append, filterMap_fieldOn?_fieldScript,
      filterMap_fieldOn?_branchScript hb, List.append_nil]
  | cons i address ih =>
    obtain ⟨c, part, hbranch, hnode⟩ := Filter.exists_branch_of_node? h
    obtain ⟨hfrom, hto⟩ := builderAt_cons_range hbranch h b n
    have hinner := ih (Nat.lt_add_one (n + sizes (f.branches.take i))) hnode
    rw [← builderAt_cons hbranch b n] at hinner
    -- Only the calls for the branch are on the builder.
    have hbefore := filterMap_fieldOn?_eq_nil fun call hcall =>
      notMem_builders_beside hb hfrom hto (Or.inl hcall)
    have hafter := filterMap_fieldOn?_eq_nil fun call hcall =>
      notMem_builders_beside hb hfrom hto (Or.inr hcall)
    rw [script_of_branch hbranch, List.filterMap_append, List.filterMap_append, List.filterMap_cons,
      List.filterMap_cons, hbefore, hafter, hinner]
    simp [BuilderCall.fieldOn?]

/-- What becomes of builder `sub`: one call takes it from `parent`, and one call gives it back, by
    combining it into `parent`. All calls on it lie between the two, and no others than those on
    `inner` builders. -/
def Lifetime (calls : List BuilderCall) (c : Combinator) (parent sub : Nat) (inner : Nat → Prop) :
    Prop :=
  ∃ before during after,
    calls = before ++ .isolate parent sub :: during ++ .combine c parent sub :: after ∧
      (∀ call ∈ before ++ after, sub ∉ call.builders) ∧
      ∀ call ∈ during, sub ∉ call.sub? ∧ ∀ x ∈ call.builders, inner x

theorem Lifetime.mono {calls : List BuilderCall} {c : Combinator} {parent sub : Nat}
    {inner inner' : Nat → Prop} (h : Lifetime calls c parent sub inner)
    (hinner : ∀ x, inner x → inner' x) : Lifetime calls c parent sub inner' := by
  obtain ⟨before, during, after, hcalls, hbeside, hduring⟩ := h
  exact ⟨before, during, after, hcalls, hbeside, fun call hcall =>
    ⟨(hduring call hcall).1, fun x hx => hinner x ((hduring call hcall).2 x hx)⟩⟩

/-- Calls that do not touch the builder may stand around its lifetime. -/
theorem Lifetime.surround {calls : List BuilderCall} {c : Combinator} {parent sub : Nat}
    {inner : Nat → Prop} (h : Lifetime calls c parent sub inner) {before after : List BuilderCall}
    (hbefore : ∀ call ∈ before, sub ∉ call.builders)
    (hafter : ∀ call ∈ after, sub ∉ call.builders) :
    Lifetime (before ++ calls ++ after) c parent sub inner := by
  obtain ⟨first, during, last, rfl, hbeside, hduring⟩ := h
  refine ⟨before ++ first, during, last ++ after, by simp, fun call hcall => ?_, hduring⟩
  simp only [List.mem_append] at hcall hbeside
  rcases hcall with (hcall | hcall) | hcall | hcall
  · exact hbefore call hcall
  · exact hbeside call (Or.inl hcall)
  · exact hbeside call (Or.inr hcall)
  · exact hafter call hcall

/-- The builders of the nodes at an address and below. -/
def builtFrom (f : Filter) (builder : List Nat → Nat) (address : List Nat) (x : Nat) : Prop :=
  ∃ rest g, f.node? (address ++ rest) = some g ∧ builder (address ++ rest) = x

/-- The builder of a node below the root is taken from the builder of the node above, and combined
    into it as the position of the node says. Meanwhile only the builders of the node and of the
    nodes below it are used. -/
theorem lifetime_script {f above part : Filter} {b n i : Nat} {c : Combinator} (hb : b < n)
    {address : List Nat} (h : f.node? address = some above)
    (hpart : above.branches[i]? = some (c, part)) :
    Lifetime (script f b n) c (builderAt f b n address) (builderAt f b n (address ++ [i]))
      (builtFrom f (builderAt f b n) (address ++ [i])) := by
  induction address generalizing f b n with
  | nil =>
    obtain rfl := Option.some.inj h
    have hsub : builderAt f b n [i] = n + sizes (f.branches.take i) := builderAt_cons hpart b n []
    show Lifetime (script f b n) c b (builderAt f b n [i]) (builtFrom f (builderAt f b n) [i])
    rw [hsub]
    refine ⟨_, _, _, script_of_branch hpart b n, fun call hcall => ?_, fun call hcall => ?_⟩
    · exact notMem_builders_beside hb (Nat.le_refl _) (Nat.le_add_right _ _)
        (List.mem_append.1 hcall)
    have hwithin := within_script part _ _ call hcall
    refine ⟨fun hmem => ?_, fun x hx => ?_⟩
    · exact absurd (hwithin.sub _ hmem) (by omega)
    · rcases hwithin.builders x hx with rfl | ⟨hfrom, hto⟩
      · exact ⟨[], part, Filter.node?_cons hpart [], builderAt_cons hpart b n []⟩
      · obtain ⟨j, rest, g, hnode, hnumber⟩ :=
          exists_builderAt part (n + sizes (f.branches.take i)) _ hfrom hto
        refine ⟨j :: rest, g, ?_, ?_⟩
        · rw [List.singleton_append, Filter.node?_cons hpart, hnode]
        · rw [List.singleton_append, builderAt_cons hpart, hnumber]
  | cons j address ih =>
    obtain ⟨d, first, hbranch, hnode⟩ := Filter.exists_branch_of_node? h
    have hinner := ih (Nat.lt_add_one (n + sizes (f.branches.take j))) hnode
    have hnodeSub : first.node? (address ++ [i]) = some part := by
      rw [Filter.node?_append, hnode]
      exact Filter.node?_cons hpart []
    -- Its builder is neither the one of the branch nor the one of the node.
    have hrange := builderAt_range hnodeSub (n + sizes (f.branches.take j))
      (n + sizes (f.branches.take j) + 1)
    have hne : builderAt first (n + sizes (f.branches.take j)) (n + sizes (f.branches.take j) + 1)
        (address ++ [i]) ≠ n + sizes (f.branches.take j) := by
      intro heq
      have hroot : address ++ [i] = [] :=
        builderAt_injective (Nat.lt_add_one _) hnodeSub rfl heq
      exact List.append_ne_nil_of_right_ne_nil address (List.cons_ne_nil i []) hroot
    have hscript : script f b n =
        (fieldScript b f.fields.entries ++ branchScript b n (f.branches.take j) ++
            [.isolate b (n + sizes (f.branches.take j))]) ++
          script first (n + sizes (f.branches.take j)) (n + sizes (f.branches.take j) + 1) ++
          .combine d b (n + sizes (f.branches.take j)) ::
            branchScript b (n + sizes (f.branches.take j) + 1 + first.descendants)
              (f.branches.drop (j + 1)) := by
      rw [script_of_branch hbranch]
      simp only [List.append_assoc, List.cons_append, List.nil_append]
    rw [hscript, List.cons_append, builderAt_cons hbranch, builderAt_cons hbranch]
    refine (hinner.surround (fun call hcall => ?_) fun call hcall => ?_).mono ?_
    · rcases List.mem_append.1 hcall with hcall | hcall
      · exact notMem_builders_beside (g := first) hb (by omega) (by omega) (Or.inl hcall)
      · rw [List.mem_singleton.1 hcall]
        simp only [BuilderCall.builders, List.mem_cons, List.not_mem_nil, or_false]
        omega
    · rcases List.mem_cons.1 hcall with rfl | hcall
      · simp only [BuilderCall.builders, List.mem_cons, List.not_mem_nil, or_false]
        omega
      · exact notMem_builders_beside hb (by omega) (by omega) (Or.inr hcall)
    · rintro x ⟨rest, g, hnode, hnumber⟩
      refine ⟨rest, g, ?_, ?_⟩
      · rw [List.cons_append, Filter.node?_cons hbranch, hnode]
      · rw [List.cons_append, builderAt_cons hbranch, hnumber]

/-! ## §5 The builders in use -/

theorem foldlM_step_fieldScript (b : Nat) (outer : List Nat)
    (entries : List (String × Constraints)) :
    (fieldScript b entries).foldlM BuilderCall.step (b :: outer) = some (b :: outer) := by
  induction entries with
  | nil => rfl
  | cons e rest ih =>
    have hstep : BuilderCall.step (b :: outer) (.field b e.1 e.2) = some (b :: outer) := if_pos rfl
    rw [fieldScript, List.map_cons, List.foldlM_cons, hstep]
    exact ih

theorem foldlM_step_branchScript {branches : List (Combinator × Filter)}
    (h : ∀ branch ∈ branches, ∀ b n outer,
      (script branch.2 b n).foldlM BuilderCall.step (b :: outer) = some (b :: outer))
    (b n : Nat) (outer : List Nat) :
    (branchScript b n branches).foldlM BuilderCall.step (b :: outer) = some (b :: outer) := by
  induction branches generalizing n with
  | nil => rfl
  | cons branch rest ih =>
    obtain ⟨c, g⟩ := branch
    have htake : BuilderCall.step (b :: outer) (.isolate b n) = some (n :: b :: outer) := if_pos rfl
    have hgive : BuilderCall.step (n :: b :: outer) (.combine c b n) = some (b :: outer) :=
      if_pos ⟨rfl, rfl⟩
    have hpart := h (c, g) List.mem_cons_self n (n + 1) (b :: outer)
    have hrest := ih (fun g hg => h g (List.mem_cons_of_mem _ hg)) (n + 1 + g.descendants)
    rw [branchScript, List.foldlM_append, List.foldlM_cons, htake]
    dsimp only [Option.bind_eq_bind, Option.bind_some] at hpart ⊢
    rw [hpart, Option.bind_some, List.foldlM_cons, hgive]
    exact hrest

/-- The builders in use are a stack: a node takes builders and gives them back, each to the builder
    that is then the innermost. -/
theorem foldlM_step_script (f : Filter) (b n : Nat) (outer : List Nat) :
    (script f b n).foldlM BuilderCall.step (b :: outer) = some (b :: outer) := by
  induction f using Filter.induction generalizing b n outer with
  | node f ih =>
    rw [script_eq, List.foldlM_append, foldlM_step_fieldScript]
    exact foldlM_step_branchScript
      (fun branch hbranch => ih branch.2 (Filter.mem_parts_of_mem_branches hbranch)) b n outer

/-! ## §6 Filters -/

/-- Every builder is used once by calls for a filter, where `builder` tells the builder of the node
    at an address. -/
structure UsedOnce (f : Filter) (calls : List BuilderCall) (builder : List Nat → Nat) : Prop where
  /-- The builder of the root is the one that is given. -/
  root : builder [] = 0
  /-- Different nodes have different builders. -/
  injective : ∀ {a a' g g'}, f.node? a = some g → f.node? a' = some g' → builder a = builder a' →
    a = a'
  /-- There are no other builders, and the given one is not taken or given back. -/
  surjective : ∀ call ∈ calls, (∀ x ∈ call.builders, ∃ a g, f.node? a = some g ∧ builder a = x) ∧
    ∀ x ∈ call.sub?, ∃ i a g, f.node? (i :: a) = some g ∧ builder (i :: a) = x
  /-- A builder gets the fields of its node, in path order. -/
  fields : ∀ {a g}, f.node? a = some g →
    calls.filterMap (BuilderCall.fieldOn? (builder a)) = g.fields.entries
  /-- A builder below the root is taken once, from the builder of the node above, and given back once
      to it, combined as the position of the node says. -/
  lifetime : ∀ {a i above c part}, f.node? a = some above → above.branches[i]? = some (c, part) →
    Lifetime calls c (builder a) (builder (a ++ [i])) (builtFrom f builder (a ++ [i]))
  /-- The builders in use are a stack, with the given builder left in the end. -/
  nested : calls.foldlM BuilderCall.step [0] = some [0]

/-- **Every builder is used once**: applying a filter gives back the builder that is given, and in
    the calls that it makes there is one isolated builder for each node below the root, which gets
    the fields of the node and is then combined into the builder of the node above. -/
theorem usedOnce_ofFilter (f : Filter) :
    (ofFilter f).1 = 0 ∧ ∃ builder, UsedOnce f (ofFilter f).2 builder := by
  have hcalls : ofFilter f = (0, script f 0 1) := by
    have hrun : (f.apply ops 0).run {} = (0, ⟨script f 0 1, 1 + f.descendants⟩) :=
      writes_apply f 0 1 []
    unfold ofFilter
    rw [hrun]
  rw [hcalls]
  refine ⟨rfl, builderAt f 0 1, rfl, ?_, ?_, ?_, ?_, ?_⟩
  · exact builderAt_injective Nat.zero_lt_one
  · intro call hcall
    obtain ⟨hbuilders, hsub⟩ := within_script f 0 1 call hcall
    have hbelow : ∀ x ∈ call.builders, 1 ≤ x →
        ∃ i a g, f.node? (i :: a) = some g ∧ builderAt f 0 1 (i :: a) = x := by
      intro x hx hle
      rcases hbuilders x hx with rfl | ⟨-, hlt⟩
      · exact absurd hle (by decide)
      · exact exists_builderAt f 0 1 hle hlt
    refine ⟨fun x hx => ?_, fun x hx => hbelow x (BuilderCall.mem_builders_of_sub? hx) (hsub x hx)⟩
    rcases Nat.eq_zero_or_pos x with rfl | hpos
    · exact ⟨[], f, rfl, rfl⟩
    · obtain ⟨i, a, g, hnode, hbuilder⟩ := hbelow x hx hpos
      exact ⟨i :: a, g, hnode, hbuilder⟩
  · exact filterMap_fieldOn?_script Nat.zero_lt_one
  · exact lifetime_script Nat.zero_lt_one
  · exact foldlM_step_script f 0 1 []

end CallLog

end ListQuery
