import ListQuery.Proofs.Relation.Agreement
import ListQuery.Proofs.Relation.Kept

/-!
# What a lenient reading gives

A lenient reading always goes on, so what it gives can be said without the steps that it takes: they
are the relations in the text of the list, up to the depth at which blocks are left out.

The two readers only part at blocks. One takes a request off the front of a block before it reads
on, and the other reads all of it. So the paths that the second one finds are those of the relations
that are in the list if no block begins with a request.

## Main definitions

- `outline`: the relations whose paths a reading of paths finds.

## Main statements

- `Policy.result_accept_lenient`: what is accepted;
- `Policy.result_readLevel_lenient`, `Policy.finds_traceLevel_lenient`: the readings of a level;
- `readForest_lenient`, `readPaths_lenient`: the readings of a relation list;
- `eq_of_readForest`, `eq_of_readPaths`: what a reading gives in either mode, if it gives anything.
-/

namespace ListQuery.Relation

/-- What an entry is accepted with by a lenient reading, with so many levels left inside it. -/
def Entry.accepted? (levels : Nat) (e : Entry) : Option Accepted :=
  if e.relationName = [] then none
  else some ⟨String.ofList e.relationName, if levels = 0 then none else e.block⟩

/-- The relations whose paths a reading of paths finds in a relation list. -/
def outline (maxDepth : Nat) (source : String) : List Relation :=
  forestIn splitNothing maxDepth (outermost source.toList).text

/-! ## §1 Results -/

namespace Trail

variable {α β ω : Type}

theorem result_bind_of_ok {t : Trail ω α} {a : α} (h : t.result = .ok a)
    (next : α → Trail ω β) : (t >>= next).result = (next a).result := by
  obtain ⟨log, result⟩ := t
  obtain rfl : result = .ok a := h
  rfl

/-- Items that all have a result are gathered. -/
theorem result_gather {f : α → Trail ω (Option β)} {g : α → Option β}
    (h : ∀ a, (f a).result = .ok (g a)) (as : List α) :
    (Trail.gather f as).result = .ok (as.filterMap g) := by
  induction as with
  | nil => rfl
  | cons a as ih =>
    rw [gather, result_bind_of_ok (h a), result_bind_of_ok ih, List.filterMap_cons]
    cases g a <;> rfl

end Trail

/-! ## §2 Relations -/

namespace Policy

variable (maxDepth : Nat)

/-- A lenient reading accepts every entry that has a name, whatever is wrong with it otherwise. -/
theorem result_accept_lenient (levels : Nat) (e : Entry) :
    ((Policy.mk .lenient maxDepth).accept levels e).result = .ok (e.accepted? levels) := by
  -- A closing brace that closes nothing is met and makes no other difference.
  have hrest (e : Entry) (hstray : e.strayClose = none) :
      ((Policy.mk .lenient maxDepth).accept levels e).result = .ok (e.accepted? levels) := by
    by_cases hname : e.relationName = []
    · rw [accept_nameless _ levels hname hstray, Entry.accepted?, if_pos hname]
      rfl
    · rw [accept_named _ levels hname hstray, Entry.accepted?, if_neg hname]
      cases e.block with
      | none =>
        rw [ite_self]
        rfl
      | some b =>
        obtain ⟨⟨⟩, hcheck⟩ := (follows_checkBlock maxDepth e b).tolerant
        dsimp only
        rw [Trail.result_bind_of_ok hcheck]
        unfold enterBlock
        cases levels <;> rfl
  cases hstray : e.strayClose with
  | none => exact hrest e hstray
  | some offset =>
    rw [accept_of_strayClose _ levels hstray]
    exact hrest { e with strayClose := none } rfl

theorem result_readRequest_lenient (relation : String) (object : Span) :
    ((Policy.mk .lenient maxDepth).readRequest relation object).result =
      .ok (Request.ofChars object.text).toOption := by
  unfold readRequest
  cases Request.ofChars object.text <;> rfl

theorem result_levelBehind_lenient (after : Span) :
    ∃ children, ((Policy.mk .lenient maxDepth).levelBehind after).result = .ok children ∧
      (children.map Span.text).getD [] = behindRequest after.text := by
  unfold levelBehind behindRequest
  dsimp only [Span.trimStart]
  cases Text.trimStart after.text with
  | nil => exact ⟨none, rfl, rfl⟩
  | cons c s =>
    -- A missing comma is a problem, but the level begins here all the same.
    dsimp only
    split
    · exact ⟨_, rfl, rfl⟩
    · exact ⟨_, rfl, rfl⟩

/-- A lenient reading of relations splits every block. -/
theorem result_splitBlock_lenient (relation : String) (b : Block) :
    ∃ children, ((Policy.mk .lenient maxDepth).splitBlock relation b).result =
        .ok ⟨(splitRequest b.body).1, children⟩ ∧
      (children.map Span.text).getD [] = (splitRequest b.body).2 := by
  by_cases hopens : b.Opens
  · obtain ⟨-, s, -, -, htrim⟩ := hopens.exists_body
    unfold splitBlock splitRequest
    dsimp only [Block.content, Span.trimStart]
    simp only [htrim]
    cases hcut : cutBlock s with
    | none => exact ⟨none, rfl, rfl⟩
    | some cut =>
      obtain ⟨children, hchildren, htext⟩ := result_levelBehind_lenient maxDepth _
      simp only
      rw [Trail.result_bind_of_ok (result_readRequest_lenient maxDepth relation _),
        Trail.result_bind_of_ok hchildren]
      exact ⟨children, rfl, htext⟩
  · have hhead := Block.not_opens_iff.1 hopens
    rw [splitBlock_of_not_open _ relation hhead, splitRequest_of_not_open hhead]
    exact ⟨_, rfl, rfl⟩

theorem result_readBlock_lenient {g : Span → Trail Notice (List Relation)}
    {inner : List Char → List Relation} (hg : ∀ level, (g level).result = .ok (inner level.text))
    (hnil : inner [] = []) (relation : String) (b : Block) :
    ((Policy.mk .lenient maxDepth).readBlock g relation b).result =
      .ok ((splitRequest b.body).1, inner (splitRequest b.body).2) := by
  obtain ⟨children, hsplit, htext⟩ := result_splitBlock_lenient maxDepth relation b
  unfold readBlock
  rw [Trail.result_bind_of_ok hsplit, ← htext]
  cases children with
  | none =>
    rw [Option.map_none, Option.getD_none, hnil]
    rfl
  | some level => exact Trail.result_bind_of_ok (hg level) _

/-- With no level left, every block is left out. -/
theorem result_readEntry_lenient_zero (g : Span → Trail Notice (List Relation)) (e : Entry) :
    ((Policy.mk .lenient maxDepth).readEntry 0 g e).result = .ok (e.kept?.map Kept.bare) := by
  rw [readEntry_eq, Trail.result_bind_of_ok (result_accept_lenient maxDepth 0 e)]
  unfold Entry.accepted? Entry.kept?
  split <;> rfl

theorem result_readEntry_lenient_succ {g : Span → Trail Notice (List Relation)}
    {inner : List Char → List Relation} (hg : ∀ level, (g level).result = .ok (inner level.text))
    (hnil : inner [] = []) (levels : Nat) (e : Entry) :
    ((Policy.mk .lenient maxDepth).readEntry (levels + 1) g e).result =
      .ok (e.kept?.map (Kept.relation splitRequest inner)) := by
  rw [readEntry_eq, Trail.result_bind_of_ok (result_accept_lenient maxDepth _ e)]
  unfold Entry.accepted? Entry.kept?
  split
  · rfl
  · rw [if_neg (Nat.succ_ne_zero levels)]
    cases e.block with
    | none => rfl
    | some b => exact Trail.result_bind_of_ok (result_readBlock_lenient maxDepth hg hnil _ b) _

/-- A lenient reading of a level gives the relations in its text. -/
theorem result_readLevel_lenient (levels : Nat) (level : Span) :
    ((Policy.mk .lenient maxDepth).readLevel levels level).result =
      .ok (forestIn splitRequest levels level.text) := by
  -- One level less is left inside a block.
  induction levels generalizing level with
  | zero =>
    have hentry := result_readEntry_lenient_zero maxDepth (fun _ => pure [])
    rw [readLevel, Trail.result_gather hentry, forestIn, ← filterMap_kept?_entries,
      List.map_filterMap]
  | succ levels ih =>
    have hentry := result_readEntry_lenient_succ maxDepth ih (forestIn_nil _ levels) levels
    rw [readLevel, Trail.result_gather hentry, forestIn, ← filterMap_kept?_entries,
      List.map_filterMap]

/-! ## §3 Paths -/

theorem finds_forEach_of_relation? {f : Entry → Trail Finding Unit} {g : Entry → Option Relation}
    {outer : Option String} (h : ∀ e, Finds (f e) (pathsOfAllBelow outer (g e).toList))
    (es : List Entry) : Finds (Trail.forEach f es) (pathsOfAllBelow outer (es.filterMap g)) := by
  rw [List.filterMap_eq_flatMap_toList]
  induction es with
  | nil => exact finds_pure
  | cons e es ih =>
    rw [List.flatMap_cons, pathsOfAllBelow_append]
    exact (h e).bind ih

theorem finds_traceEntry_lenient_zero (g : String → Span → Trail Finding Unit)
    (outer : Option String) (e : Entry) :
    Finds ((Policy.mk .lenient maxDepth).traceEntry 0 g outer e)
      (pathsOfAllBelow outer (e.kept?.map Kept.bare).toList) := by
  unfold traceEntry
  rw [finds_notices_bind_iff (result_accept_lenient maxDepth 0 e)]
  unfold Entry.accepted? Entry.kept?
  by_cases hname : e.relationName = []
  · rw [if_pos hname, if_pos hname]
    exact finds_pure
  · rw [if_neg hname, if_neg hname]
    exact ⟨rfl, rfl⟩

theorem finds_traceEntry_lenient_succ {g : String → Span → Trail Finding Unit}
    {inner : List Char → List Relation}
    (hg : ∀ path level, Finds (g path level) (pathsOfAllBelow (some path) (inner level.text)))
    (levels : Nat) (outer : Option String) (e : Entry) :
    Finds ((Policy.mk .lenient maxDepth).traceEntry (levels + 1) g outer e)
      (pathsOfAllBelow outer (e.kept?.map (Kept.relation splitNothing inner)).toList) := by
  unfold traceEntry
  rw [finds_notices_bind_iff (result_accept_lenient maxDepth _ e)]
  unfold Entry.accepted? Entry.kept?
  by_cases hname : e.relationName = []
  · rw [if_pos hname, if_pos hname]
    exact finds_pure
  · rw [if_neg hname, if_neg hname, if_neg (Nat.succ_ne_zero levels)]
    cases e.block with
    | none => exact ⟨rfl, rfl⟩
    | some b =>
      let path := pathBelow outer (String.ofList e.relationName)
      have hpath : Finds (.leave (.path path)) [path] := ⟨rfl, rfl⟩
      show Finds _ (path :: pathsOfAllBelow (some path) (inner b.content.text) ++ [])
      rw [List.append_nil]
      exact hpath.bind (hg path b.content)

/-- A lenient reading of the paths in a level finds those of the relations in its text, when no
    block is taken to begin with a request. -/
theorem finds_traceLevel_lenient (levels : Nat) (outer : Option String) (level : Span) :
    Finds ((Policy.mk .lenient maxDepth).traceLevel levels outer level)
      (pathsOfAllBelow outer (forestIn splitNothing levels level.text)) := by
  induction levels generalizing outer level with
  | zero =>
    rw [traceLevel, forestIn, ← filterMap_kept?_entries, List.map_filterMap]
    exact finds_forEach_of_relation? (finds_traceEntry_lenient_zero maxDepth _ outer) _
  | succ levels ih =>
    have hinside (path : String) (level : Span) := ih (some path) level
    rw [traceLevel, forestIn, ← filterMap_kept?_entries, List.map_filterMap]
    exact finds_forEach_of_relation?
      (finds_traceEntry_lenient_succ maxDepth hinside levels outer) _

end Policy

/-! ## §4 Relation lists -/

/-- What a lenient reading of relations gives. -/
theorem readForest_lenient (maxDepth : Nat) (source : String) :
    (Policy.mk .lenient maxDepth).readForest source =
      .ok (forestIn splitRequest maxDepth (outermost source.toList).text) :=
  Policy.result_readLevel_lenient maxDepth maxDepth (outermost source.toList)

/-- What a lenient reading of paths gives. -/
theorem readPaths_lenient (maxDepth : Nat) (source : String) :
    (Policy.mk .lenient maxDepth).readPaths source =
      .ok (pathsOfAllBelow none (outline maxDepth source)) :=
  (Policy.readPaths_eq_ok_iff _).2
    (Policy.finds_traceLevel_lenient maxDepth maxDepth none (outermost source.toList))

/-! ## §5 Readings in either mode -/

/-- The relations that are read are those that a lenient reading gives. -/
theorem eq_of_readForest {policy : Policy} {source : String} {rs : List Relation}
    (h : policy.readForest source = .ok rs) :
    rs = forestIn splitRequest policy.maxDepth (outermost source.toList).text := by
  obtain ⟨mode, maxDepth⟩ := policy
  cases mode with
  | lenient => exact Except.ok.inj (h.symm.trans (readForest_lenient maxDepth source))
  | strict =>
    have hfollows := Policy.follows_readLevel maxDepth maxDepth (outermost source.toList)
    have hsame : (Policy.mk .strict maxDepth).traceForest source =
        (Policy.mk .lenient maxDepth).traceForest source := hfollows.eq_of_ok h
    have hlenient : (Policy.mk .lenient maxDepth).readForest source = .ok rs := by
      rw [← h]
      exact congrArg Trail.result hsame.symm
    exact Except.ok.inj (hlenient.symm.trans (readForest_lenient maxDepth source))

/-- The paths that are read are those that a lenient reading gives. -/
theorem eq_of_readPaths {policy : Policy} {source : String} {paths : List String}
    (h : policy.readPaths source = .ok paths) :
    paths = pathsOfAllBelow none (outline policy.maxDepth source) := by
  obtain ⟨mode, maxDepth⟩ := policy
  cases mode with
  | lenient => exact Except.ok.inj (h.symm.trans (readPaths_lenient maxDepth source))
  | strict =>
    have hfollows := Policy.follows_traceLevel maxDepth maxDepth none (outermost source.toList)
    obtain ⟨⟨⟩, hok, -⟩ := map_eq_ok.1 h
    have hsame : (Policy.mk .strict maxDepth).tracePaths source =
        (Policy.mk .lenient maxDepth).tracePaths source := hfollows.eq_of_ok hok
    have hlenient : (Policy.mk .lenient maxDepth).readPaths source = .ok paths := by
      rw [← h]
      unfold Policy.readPaths
      rw [hsame]
    exact Except.ok.inj (hlenient.symm.trans (readPaths_lenient maxDepth source))

end ListQuery.Relation
