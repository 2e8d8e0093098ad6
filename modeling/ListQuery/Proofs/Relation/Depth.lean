import ListQuery.Proofs.Relation.Lenient

/-!
# The limit of the depth

How many levels are entered makes no difference to anything but what lies deeper. Read leniently, a
relation list gives the same relations under a lower limit, without the requests of those that lie
at the limit and without everything inside them. Read strictly, it gives the same, unless there is a
block below the limit; then that block is reported, or an earlier problem that is reported under
either limit.

For the strict readings this is said of trails (`UpToDepth`), and goes up from `Policy.accept`, the
only step at which the limit counts, in the way of `Trail.Follows`.

## Main definitions

- `prune`: a relation without what lies deeper than a limit;
- `places`: the relations in a list of trees, with the number of relations around each;
- `UpToDepth`: a reading under a lower limit.

## Main statements

- `forestIn_of_le`: lenient readings of a level under two limits;
- `placesOfAllBelow_prune`: the paths that are left;
- `Policy.upToDepth_readLevel`, `Policy.upToDepth_traceLevel`: strict readings of a level under two
  limits;
- `depth_only_prunes`: the readings of a relation list under two limits.
-/

namespace ListQuery.Relation

/-! ## §1 Pruned relations -/

/-- A relation without what has more than so many relations around it. Where the limit is reached,
    only the name is left. -/
def prune : (levels : Nat) → Relation → Relation
  | 0, r => { name := r.name }
  | levels + 1, r => { r with children := r.children.map (prune levels) }

mutual

/-- A relation and those inside it, each as the number of relations around it and its path. -/
def placesBelow (around : Nat) (outer : Option String) : Relation → List (Nat × String)
  | ⟨name, _, children⟩ =>
    let path := pathBelow outer name
    (around, path) :: placesOfAllBelow (around + 1) (some path) children

def placesOfAllBelow (around : Nat) (outer : Option String) : List Relation → List (Nat × String)
  | [] => []
  | r :: rest => placesBelow around outer r ++ placesOfAllBelow around outer rest

end

/-- The relations in a list of trees, each as the number of relations around it and its path. -/
def places (rs : List Relation) : List (Nat × String) :=
  placesOfAllBelow 0 none rs

mutual

theorem map_snd_placesBelow (around : Nat) (outer : Option String) :
    (r : Relation) → (placesBelow around outer r).map Prod.snd = pathsBelow outer r
  | ⟨name, _, children⟩ => by
    rw [placesBelow, pathsBelow, List.map_cons, map_snd_placesOfAllBelow]

theorem map_snd_placesOfAllBelow (around : Nat) (outer : Option String) :
    (rs : List Relation) →
    (placesOfAllBelow around outer rs).map Prod.snd = pathsOfAllBelow outer rs
  | [] => by
    rw [placesOfAllBelow, pathsOfAllBelow, List.map_nil]
  | r :: rest => by
    rw [placesOfAllBelow, pathsOfAllBelow, List.map_append, map_snd_placesBelow,
      map_snd_placesOfAllBelow]

end

mutual

theorem le_of_mem_placesBelow {around : Nat} {outer : Option String} {p : Nat × String} :
    (r : Relation) → p ∈ placesBelow around outer r → around ≤ p.1
  | ⟨name, _, children⟩, h => by
    rw [placesBelow] at h
    rcases List.mem_cons.1 h with rfl | h
    · exact Nat.le_refl _
    · exact Nat.le_of_succ_le (le_of_mem_placesOfAllBelow children h)

theorem le_of_mem_placesOfAllBelow {around : Nat} {outer : Option String} {p : Nat × String} :
    (rs : List Relation) → p ∈ placesOfAllBelow around outer rs → around ≤ p.1
  | [], h => by
    rw [placesOfAllBelow] at h
    exact absurd h List.not_mem_nil
  | r :: rest, h => by
    rw [placesOfAllBelow] at h
    rcases List.mem_append.1 h with h | h
    · exact le_of_mem_placesBelow r h
    · exact le_of_mem_placesOfAllBelow rest h

end

mutual

theorem placesBelow_prune : (r : Relation) → (levels around : Nat) → (outer : Option String) →
    placesBelow around outer (prune levels r) =
      (placesBelow around outer r).filter fun p => p.1 ≤ around + levels
  | ⟨name, query, children⟩, 0, around, outer => by
    -- All relations inside have one more around them than the limit allows.
    have hnone : (placesOfAllBelow (around + 1) (some (pathBelow outer name)) children).filter
        (fun p => p.1 ≤ around + 0) = [] := by
      rw [List.filter_eq_nil_iff]
      intro p hp hle
      have hlt := le_of_mem_placesOfAllBelow children hp
      have hle' := of_decide_eq_true hle
      omega
    rw [prune, placesBelow, placesBelow, placesOfAllBelow]
    dsimp only
    rw [List.filter_cons_of_pos (by simp), hnone]
  | ⟨name, query, children⟩, levels + 1, around, outer => by
    rw [prune, placesBelow, placesBelow]
    dsimp only
    rw [placesOfAllBelow_prune children levels, List.filter_cons_of_pos (by simp),
      Nat.add_right_comm, Nat.add_assoc]

/-- The relations that are left of trees are those with not too many relations around them. -/
theorem placesOfAllBelow_prune : (rs : List Relation) → (levels around : Nat) →
    (outer : Option String) →
    placesOfAllBelow around outer (rs.map (prune levels)) =
      (placesOfAllBelow around outer rs).filter fun p => p.1 ≤ around + levels
  | [], _, _, _ => by
    rw [List.map_nil, placesOfAllBelow]
    rfl
  | r :: rest, levels, around, outer => by
    rw [List.map_cons, placesOfAllBelow, placesOfAllBelow, List.filter_append, placesBelow_prune r,
      placesOfAllBelow_prune rest]

end

/-! ## §2 Lenient readings -/

/-- What is read of a text under a lower limit is what is read under the higher one, pruned. -/
theorem forestIn_of_le (split : List Char → Option Request × List Char) {levels more : Nat}
    (h : levels ≤ more) (text : List Char) :
    forestIn split levels text = (forestIn split more text).map (prune levels) := by
  induction levels generalizing more text with
  | zero =>
    cases more with
    | zero => simp [forestIn, Kept.bare, prune]
    | succ more =>
      rw [forestIn, forestIn, List.map_map]
      refine List.map_congr_left fun k _ => ?_
      obtain ⟨name, body⟩ := k
      cases body <;> rfl
  | succ levels ih =>
    obtain ⟨more, rfl⟩ := Nat.exists_eq_add_one.2 (Nat.lt_of_lt_of_le (Nat.succ_pos levels) h)
    rw [forestIn, forestIn, List.map_map]
    refine List.map_congr_left fun k _ => ?_
    obtain ⟨name, body⟩ := k
    cases body with
    | none => rfl
    | some body =>
      have hinside := ih (Nat.le_of_succ_le_succ h) (split body).2
      simp only [Function.comp_apply, Kept.relation, prune, hinside]

/-! ## §3 Readings under a lower limit -/

/-- A reading under the lower limit `depth` and the same one under a higher limit: they are equal,
    or the first one ends at a block that is too deep. -/
def UpToDepth {ω α : Type} (depth : Nat) (t u : Trail ω α) : Prop :=
  t = u ∨ ∃ offset, t.result = .error ⟨.tooDeep depth, offset⟩

namespace UpToDepth

open Trail

variable {ω ω' α β : Type} {depth : Nat}

theorem refl (t : Trail ω α) : UpToDepth depth t t :=
  Or.inl rfl

theorem bind {t u : Trail ω α} {f g : α → Trail ω β} (h : UpToDepth depth t u)
    (hnext : ∀ a, t.result = .ok a → UpToDepth depth (f a) (g a)) :
    UpToDepth depth (t >>= f) (u >>= g) := by
  obtain ⟨log, result⟩ := t
  rcases h with rfl | ⟨offset, hdeep⟩
  · cases result with
    | error e => exact refl _
    | ok a =>
      rcases hnext a rfl with heq | ⟨offset, hdeep⟩
      · rw [bind_ok, bind_ok, heq]
        exact refl _
      · exact Or.inr ⟨offset, hdeep⟩
  · obtain rfl : result = .error _ := hdeep
    exact Or.inr ⟨offset, rfl⟩

theorem mapLog (f : ω → ω') {t u : Trail ω α} (h : UpToDepth depth t u) :
    UpToDepth depth (t.mapLog f) (u.mapLog f) := by
  rcases h with rfl | hdeep
  · exact refl _
  · exact Or.inr hdeep

theorem gather {f g : α → Trail ω (Option β)} {as : List α}
    (h : ∀ a ∈ as, UpToDepth depth (f a) (g a)) :
    UpToDepth depth (Trail.gather f as) (Trail.gather g as) := by
  induction as with
  | nil => exact refl _
  | cons a as ih =>
    have hrest := ih fun b hb => h b (List.mem_cons_of_mem _ hb)
    exact (h a List.mem_cons_self).bind fun _ _ => hrest.bind fun _ _ => refl _

theorem forEach {f g : α → Trail ω Unit} {as : List α}
    (h : ∀ a ∈ as, UpToDepth depth (f a) (g a)) :
    UpToDepth depth (Trail.forEach f as) (Trail.forEach g as) := by
  induction as with
  | nil => exact refl _
  | cons a as ih =>
    have hrest := ih fun b hb => h b (List.mem_cons_of_mem _ hb)
    exact (h a List.mem_cons_self).bind fun _ _ => hrest

end UpToDepth

/-! ## §4 Strict readings -/

namespace Policy

variable (depth deeper : Nat)

/-- The only step at which the limit counts. -/
theorem upToDepth_enterBlock {levels more : Nat} (h : levels ≤ more) (relation : String)
    (b : Block) :
    UpToDepth depth ((Policy.mk .strict depth).enterBlock levels relation b)
      ((Policy.mk .strict deeper).enterBlock more relation b) := by
  unfold enterBlock
  by_cases hlevels : levels = 0
  · rw [if_pos hlevels]
    exact Or.inr ⟨b.openAt, rfl⟩
  · rw [if_neg hlevels, if_neg (by omega)]
    exact UpToDepth.refl _

theorem upToDepth_accept {levels more : Nat} (h : levels ≤ more) (e : Entry) :
    UpToDepth depth ((Policy.mk .strict depth).accept levels e)
      ((Policy.mk .strict deeper).accept more e) := by
  cases hstray : e.strayClose with
  | some offset =>
    -- Either reading ends before it comes to a block.
    rw [accept_of_strayClose _ levels hstray, accept_of_strayClose _ more hstray]
    exact UpToDepth.refl _
  | none =>
    by_cases hname : e.relationName = []
    · rw [accept_nameless _ levels hname hstray, accept_nameless _ more hname hstray]
      exact UpToDepth.refl _
    · rw [accept_named _ levels hname hstray, accept_named _ more hname hstray]
      cases e.block with
      | none => exact UpToDepth.refl _
      | some b =>
        exact (UpToDepth.refl ((Policy.mk .strict depth).checkBlock e b)).bind fun _ _ =>
          (upToDepth_enterBlock depth deeper h _ b).bind fun _ _ => UpToDepth.refl _

theorem upToDepth_readEntry {levels more : Nat} (h : levels ≤ more)
    {f g : Span → Trail Notice (List Relation)}
    (hinside : 0 < levels → ∀ inside, UpToDepth depth (f inside) (g inside)) (e : Entry) :
    UpToDepth depth ((Policy.mk .strict depth).readEntry levels f e)
      ((Policy.mk .strict deeper).readEntry more g e) := by
  rw [readEntry_eq, readEntry_eq]
  refine (upToDepth_accept depth deeper h e).bind fun accepted haccepted => ?_
  match accepted with
  | none => exact UpToDepth.refl _
  | some ⟨name, none⟩ => exact UpToDepth.refl _
  | some ⟨name, some b⟩ =>
    -- A block is accepted only where there are levels left.
    have hlevels : 0 < levels := ((of_accept_eq_ok _ haccepted).2.2 b rfl).2
    refine UpToDepth.bind ?_ fun _ _ => UpToDepth.refl _
    refine (UpToDepth.refl ((Policy.mk .strict depth).splitBlock name b)).bind fun parts _ => ?_
    obtain ⟨query, children⟩ := parts
    cases children with
    | none => exact UpToDepth.refl _
    | some inside => exact (hinside hlevels inside).bind fun _ _ => UpToDepth.refl _

/-- Under a lower limit a level is read in the same way, up to a block that is too deep. -/
theorem upToDepth_readLevel {levels more : Nat} (h : levels ≤ more) (level : Span) :
    UpToDepth depth ((Policy.mk .strict depth).readLevel levels level)
      ((Policy.mk .strict deeper).readLevel more level) := by
  induction levels generalizing more level with
  | zero =>
    rw [readLevel_eq, readLevel_eq]
    exact UpToDepth.gather fun e _ =>
      upToDepth_readEntry depth deeper h (fun hlevels => absurd hlevels (Nat.lt_irrefl 0)) e
  | succ levels ih =>
    obtain ⟨more, rfl⟩ := Nat.exists_eq_add_one.2 (Nat.lt_of_lt_of_le (Nat.succ_pos levels) h)
    exact UpToDepth.gather fun e _ =>
      upToDepth_readEntry depth deeper h (fun _ => ih (Nat.le_of_succ_le_succ h)) e

theorem upToDepth_traceEntry {levels more : Nat} (h : levels ≤ more)
    {f g : String → Span → Trail Finding Unit}
    (hinside : 0 < levels → ∀ path inside, UpToDepth depth (f path inside) (g path inside))
    (outer : Option String) (e : Entry) :
    UpToDepth depth ((Policy.mk .strict depth).traceEntry levels f outer e)
      ((Policy.mk .strict deeper).traceEntry more g outer e) := by
  unfold traceEntry
  refine ((upToDepth_accept depth deeper h e).mapLog _).bind fun accepted haccepted => ?_
  match accepted with
  | none => exact UpToDepth.refl _
  | some ⟨name, none⟩ => exact UpToDepth.refl _
  | some ⟨name, some b⟩ =>
    have hlevels : 0 < levels := ((of_accept_eq_ok _ haccepted).2.2 b rfl).2
    exact (UpToDepth.refl _).bind fun _ _ => hinside hlevels _ _

/-- Under a lower limit the same paths are found in a level, up to a block that is too deep. -/
theorem upToDepth_traceLevel {levels more : Nat} (h : levels ≤ more) (outer : Option String)
    (level : Span) :
    UpToDepth depth ((Policy.mk .strict depth).traceLevel levels outer level)
      ((Policy.mk .strict deeper).traceLevel more outer level) := by
  induction levels generalizing more outer level with
  | zero =>
    rw [traceLevel_eq, traceLevel_eq]
    exact UpToDepth.forEach fun e _ => upToDepth_traceEntry depth deeper h
      (fun hlevels => absurd hlevels (Nat.lt_irrefl 0)) outer e
  | succ levels ih =>
    obtain ⟨more, rfl⟩ := Nat.exists_eq_add_one.2 (Nat.lt_of_lt_of_le (Nat.succ_pos levels) h)
    exact UpToDepth.forEach fun e _ => upToDepth_traceEntry depth deeper h
      (fun _ path => ih (Nat.le_of_succ_le_succ h) (some path)) outer e

end Policy

/-! ## §5 Relation lists -/

/-- **The limit of the depth only prunes.** Under a lower limit a lenient reading gives the same
    relations without the requests and the relations inside of those that have as many relations
    around them as the limit, and the same paths without those of relations that have more around
    them. A strict reading gives the same result under either limit, or it reports a block that is
    too deep for the lower one. -/
theorem depth_only_prunes {depth deeper : Nat} (h : depth ≤ deeper) (source : String) :
    (∃ rs, (Policy.mk .lenient deeper).readForest source = .ok rs ∧
        (Policy.mk .lenient depth).readForest source = .ok (rs.map (prune depth))) ∧
      ((Policy.mk .lenient deeper).readPaths source =
          .ok ((places (outline deeper source)).map Prod.snd) ∧
        (Policy.mk .lenient depth).readPaths source =
          .ok (((places (outline deeper source)).filter fun p => p.1 ≤ depth).map Prod.snd)) ∧
      ((Policy.mk .strict depth).readForest source = (Policy.mk .strict deeper).readForest source ∨
        ∃ offset, (Policy.mk .strict depth).readForest source =
          .error ⟨.tooDeep depth, offset⟩) ∧
      ((Policy.mk .strict depth).readPaths source = (Policy.mk .strict deeper).readPaths source ∨
        ∃ offset, (Policy.mk .strict depth).readPaths source =
          .error ⟨.tooDeep depth, offset⟩) := by
  refine ⟨⟨_, readForest_lenient deeper source, ?_⟩, ⟨?_, ?_⟩, ?_, ?_⟩
  · rw [readForest_lenient, forestIn_of_le _ h]
  · rw [readPaths_lenient, places, map_snd_placesOfAllBelow]
  · have hprune := placesOfAllBelow_prune (outline deeper source) depth 0 none
    rw [Nat.zero_add] at hprune
    rw [readPaths_lenient, places, ← hprune, map_snd_placesOfAllBelow, outline, outline,
      forestIn_of_le _ h]
  · rcases Policy.upToDepth_readLevel depth deeper h (outermost source.toList) with heq | hdeep
    · exact Or.inl (congrArg Trail.result heq)
    · exact Or.inr hdeep
  · rcases Policy.upToDepth_traceLevel depth deeper h none (outermost source.toList) with
      heq | ⟨offset, hdeep⟩
    · exact Or.inl (congrArg (fun t => t.result.map fun _ => pathsIn t.log) heq)
    · exact Or.inr ⟨offset, congrArg (Except.map _) hdeep⟩

/-- A relation list with blocks inside one another, the outer one with a request. -/
def deepList : String :=
  "author \x7b \x7b\"limit\": 5\x7d, posts \x7b tags \x7b likes \x7d \x7d, profile \x7d, id"

/-- With one level, what is inside the inner block is left out of the list, or its brace is
    reported. -/
theorem depth_only_prunes_deepList :
    1 ≤ 3 ∧
      (Policy.mk .lenient 1).readForest deepList =
        .ok [⟨"author", some { limit := some 5 }, [⟨"posts", none, []⟩, ⟨"profile", none, []⟩]⟩,
          ⟨"id", none, []⟩] ∧
      (Policy.mk .lenient 1).readPaths deepList =
        .ok ["author", "author.posts", "author.profile", "id"] ∧
      ∃ offset, (Policy.mk .strict 1).readForest deepList = .error ⟨.tooDeep 1, offset⟩ := by
  have hread : (Policy.mk .lenient 3).readForest deepList =
      .ok [⟨"author", some { limit := some 5 },
          [⟨"posts", none, [⟨"tags", none, [⟨"likes", none, []⟩]⟩]⟩, ⟨"profile", none, []⟩]⟩,
        ⟨"id", none, []⟩] := toOption_eq_some.1 (by decide +kernel)
  obtain ⟨⟨rs, hrs, hpruned⟩, ⟨-, hpaths⟩, hforest, -⟩ :=
    depth_only_prunes (by decide : 1 ≤ 3) deepList
  obtain rfl := Except.ok.inj (hrs.symm.trans hread)
  refine ⟨by decide, hpruned, ?_, hforest.resolve_left ?_⟩
  · rw [hpaths]
    decide +kernel
  · decide +kernel

end ListQuery.Relation
