import ListQuery.Proofs.Relation.ForestGrammar
import ListQuery.Proofs.Relation.Printable
import ListQuery.Relation.Paths

/-!
# Reading what was printed

The text of printable relations is read back as these relations, under either mode and without a
notice, as long as it may be entered as deeply as its blocks nest: what is printed derives from the
grammar of relation lists. The lenient reading of paths finds the paths of the same relations: it
takes an embedded request for an entry without a name and passes over it.

The reading of paths goes level by level, so its proof goes by induction on the number of levels
that are left. What one entry gives is the same at every level.

## Main statements

- `Printable.isItem`: the text of a printable relation derives the relation;
- `readLevel_levelText`: the relations of a printed level;
- `finds_traceLevel_blockParts`: the paths of a printed block;
- `read_listText`: printing and reading give the same relations and their paths.
-/

namespace ListQuery.Relation

open Text (byteLength)

/-! ## §1 What is printed derives from the grammar -/

theorem writesRequest_render {q : Request} (hq : Request.ofJson q.document.text = .ok q) :
    WritesRequest q.document.render q := by
  obtain ⟨body, -, hrender⟩ := exists_render_document q
  exact ⟨⟨body, hrender⟩, hq⟩

theorem isLevel_levelText {n : Nat} {rs : List Relation}
    (h : ∀ r ∈ rs, IsItem WritesRequest n r.render r) :
    IsLevel WritesRequest n (levelText rs) rs := by
  induction rs with
  | nil => exact .nil
  | cons r rest ih =>
    have hr := h r List.mem_cons_self
    cases rest with
    | nil => exact .one hr
    | cons s rest =>
      rw [levelText_cons_cons]
      exact .cons hr (ih fun t ht => h t (List.mem_cons_of_mem _ ht))

/-- A block that is printed has its request in front of the level of its relations. -/
theorem isBlock_blockParts {n : Nat} {query : Option Request} {children : List Relation}
    (hquery : ∀ q ∈ query, Request.ofJson q.document.text = .ok q)
    (hchildren : ∀ r ∈ children, IsItem WritesRequest n r.render r) :
    IsBlock WritesRequest n (Text.join [','] (blockParts query children)) query children := by
  have hlevel := isLevel_levelText hchildren
  cases query with
  | none => exact .level hlevel
  | some q =>
    have hobject := writesRequest_render (hquery q rfl)
    cases children with
    | nil => exact .object hobject (Text.Padded.refl _)
    | cons r rest =>
      have hjoin : Text.join [','] (blockParts (some q) (r :: rest)) =
          q.document.render ++ ',' :: levelText (r :: rest) := by
        simp [blockParts, levelText, Text.join]
      rw [hjoin]
      exact .objectLevel hobject (Text.Padded.refl _) hlevel

/-- The text of a printable relation derives the relation. -/
theorem Printable.isItem {r : Relation} (h : Printable r) :
    ∀ {n}, r.height ≤ n → IsItem WritesRequest n r.render r := by
  -- The blocks of the relations inside nest less deep, and the induction is over these relations.
  induction h with
  | @intro name query children hname hquery _ ih =>
    intro n hheight
    rcases leaf_or_block query children with ⟨rfl, rfl⟩ | hblock
    · rw [render_leaf]
      exact .name hname (Text.Padded.refl _)
    · rw [height_block name hblock] at hheight
      obtain ⟨n, rfl⟩ := Nat.exists_eq_add_one.2 (Nat.lt_of_lt_of_le (Nat.succ_pos _) hheight)
      have hchildren : ∀ r ∈ children, IsItem WritesRequest n r.render r := fun r hr =>
        ih r hr (heightAll_le_iff.1 (Nat.le_of_succ_le_succ hheight) r hr)
      rw [render_block name hblock]
      exact .block hname (Text.Padded.refl _) (isBlock_blockParts hquery hchildren)
        Text.blanks_nil

/-! ## §2 The entry of a printed relation -/

theorem gives_render_leaf {name : String} (hname : IsName name) (offset levels : Nat) :
    (Entry.ofPieces offset (pieces (render ⟨name, none, []⟩))).Gives levels name none := by
  rw [render_leaf]
  exact gives_name hname (Text.Padded.refl _) offset levels

theorem gives_render_block {name : String} {query : Option Request} {children : List Relation}
    (h : Printable ⟨name, query, children⟩) (hblock : query.isSome ∨ children ≠ [])
    (offset levels : Nat) :
    (Entry.ofPieces offset (pieces (render ⟨name, query, children⟩))).Gives (levels + 1) name
      (some ⟨offset + byteLength name.toList, Text.join [','] (blockParts query children),
        true⟩) := by
  obtain ⟨hname, hquery, hchildren⟩ := h
  have hitems : ∀ r ∈ children, IsItem WritesRequest (heightAll children) r.render r := fun r hr =>
    (hchildren r hr).isItem (heightAll_le_iff.1 (Nat.le_refl _) r hr)
  have hbody := (isBlock_blockParts hquery hitems).balanced balanced_of_writesRequest
  rw [render_block name hblock]
  exact gives_block hname (Text.Padded.refl _) hbody Text.blanks_nil offset levels

/-- The text of a printable relation makes up one entry of a level. -/
theorem Printable.isEntryText {r : Relation} (h : Printable r) : IsEntryText r.render :=
  (h.isItem (Nat.le_refl _)).isEntryText balanced_of_writesRequest

/-! ## §3 Relations -/

namespace Policy

variable (policy : Policy)

/-- A printed level is read as its relations while as many levels are left as its blocks nest. -/
theorem readLevel_levelText {levels : Nat} {rs : List Relation} (h : ∀ r ∈ rs, Printable r)
    (hheight : heightAll rs ≤ levels) (offset : Nat) :
    policy.readLevel levels ⟨levelText rs, offset⟩ = pure rs := by
  have hlevel : IsLevel WritesRequest levels (levelText rs) rs :=
    isLevel_levelText fun r hr => (h r hr).isItem (heightAll_le_iff.1 hheight r hr)
  exact policy.readLevel_of_isLevel hlevel offset

/-! ## §4 Paths -/

/-- The reading of paths succeeds and finds these paths. -/
def Finds (t : Trail Finding Unit) (paths : List String) : Prop :=
  t.result = .ok () ∧ pathsIn t.log = paths

theorem finds_pure : Finds (pure ()) [] :=
  ⟨rfl, rfl⟩

theorem Finds.bind {t u : Trail Finding Unit} {ps qs : List String} (ht : Finds t ps)
    (hu : Finds u qs) : Finds (t >>= fun _ => u) (ps ++ qs) := by
  obtain ⟨log, result⟩ := t
  obtain ⟨hresult, hlog⟩ := ht
  obtain rfl : result = .ok () := hresult
  rw [Trail.bind_ok]
  refine ⟨hu.1, ?_⟩
  show pathsIn (log ++ u.log) = ps ++ qs
  unfold pathsIn at hlog ⊢
  rw [List.filterMap_append, hlog]
  exact congrArg _ hu.2

theorem finds_forEach_ofGroups {α : Type} {f : Entry → Trail Finding Unit} {g : α → List Piece}
    {paths : α → List String} {as : List α}
    (h : ∀ a ∈ as, ∀ offset, Finds (f (Entry.ofPieces offset (g a))) (paths a))
    (offset : Nat) :
    Finds (Trail.forEach f (Entry.ofGroups offset (as.map g))) (as.flatMap paths) := by
  induction as generalizing offset with
  | nil => exact finds_pure
  | cons a as ih =>
    have hrest := ih fun b hb => h b (List.mem_cons_of_mem _ hb)
    rw [List.map_cons, Entry.ofGroups, Trail.forEach, List.flatMap_cons]
    exact (h a List.mem_cons_self offset).bind (hrest _)

theorem finds_traceEntry_of_gives_none {e : Entry} {levels : Nat} {name : String}
    (h : e.Gives levels name none) (inner : String → Span → Trail Finding Unit)
    (outer : Option String) :
    Finds (policy.traceEntry levels inner outer e) [pathBelow outer name] := by
  unfold traceEntry
  rw [policy.accept_of_gives h]
  exact ⟨rfl, rfl⟩

/-- The path of an entry comes before those in its block. -/
theorem finds_traceEntry_of_gives_some {e : Entry} {levels : Nat} {name : String} {b : Block}
    (h : e.Gives levels name (some b)) {inner : String → Span → Trail Finding Unit}
    {outer : Option String} {below : List String}
    (hbelow : Finds (inner (pathBelow outer name) b.content) below) :
    Finds (policy.traceEntry levels inner outer e) (pathBelow outer name :: below) := by
  unfold traceEntry
  rw [policy.accept_of_gives h]
  have hpath : Finds (.leave (.path (pathBelow outer name))) [pathBelow outer name] :=
    ⟨rfl, rfl⟩
  exact hpath.bind hbelow

/-- The entry of a printed relation gives the path of the relation and the paths below it, if its
    block may be entered and gives the paths of the relations inside. -/
theorem finds_traceEntry_render {name : String} {query : Option Request}
    {children : List Relation} (h : Printable ⟨name, query, children⟩) {levels : Nat}
    {inner : String → Span → Trail Finding Unit}
    (hinner : query.isSome ∨ children ≠ [] → 0 < levels ∧ ∀ path offset,
      Finds (inner path ⟨Text.join [','] (blockParts query children), offset⟩)
        (pathsOfAllBelow (some path) children))
    (outer : Option String) (offset : Nat) :
    Finds
      (policy.traceEntry levels inner outer
        (Entry.ofPieces offset (pieces (render ⟨name, query, children⟩))))
      (pathsBelow outer ⟨name, query, children⟩) := by
  rcases leaf_or_block query children with ⟨rfl, rfl⟩ | hblock
  · obtain ⟨hname, -, -⟩ := h
    exact policy.finds_traceEntry_of_gives_none (gives_render_leaf hname offset levels) inner outer
  · obtain ⟨hlevels, hlevel⟩ := hinner hblock
    obtain ⟨levels, rfl⟩ := Nat.exists_eq_add_one.2 hlevels
    exact policy.finds_traceEntry_of_gives_some (gives_render_block h hblock offset levels)
      (hlevel _ _)

/-- The entry of a request has no name, and lenient reading passes over it. -/
theorem finds_traceEntry_document (q : Request) (maxDepth levels : Nat)
    (inner : String → Span → Trail Finding Unit) (outer : Option String) (offset : Nat) :
    Finds
      (Policy.traceEntry ⟨.lenient, maxDepth⟩ levels inner outer
        (Entry.ofPieces offset (pieces q.document.render))) [] := by
  obtain ⟨body, -, hpieces⟩ := pieces_render_document q
  rw [hpieces]
  unfold traceEntry
  rw [accept_nameless _ levels rfl rfl]
  exact ⟨rfl, rfl⟩

private theorem finds_forEach_blockParts {f : Entry → Trail Finding Unit}
    {children : List Relation} (h : ∀ r ∈ children, Printable r) {outer : Option String}
    (hdocument : ∀ (q : Request) (offset : Nat),
      Finds (f (Entry.ofPieces offset (pieces q.document.render))) [])
    (hrender : ∀ r ∈ children, ∀ offset,
      Finds (f (Entry.ofPieces offset (pieces r.render))) (pathsBelow outer r))
    (query : Option Request) (offset : Nat) :
    Finds (Trail.forEach f
        (⟨Text.join [','] (blockParts query children), offset⟩ : Span).entries)
      (pathsOfAllBelow outer children) := by
  have hparts : ∀ s ∈ blockParts query children, IsEntryText s :=
    forall_mem_blockParts query isEntryText_render_document fun r hr => (h r hr).isEntryText
  have hrest (offset : Nat) :
      Finds (Trail.forEach f (Entry.ofGroups offset ((children.map render).map pieces)))
        (pathsOfAllBelow outer children) := by
    rw [List.map_map, pathsOfAllBelow_eq_flatMap]
    exact finds_forEach_ofGroups hrender offset
  rw [entries_join hparts]
  cases query with
  | none => exact hrest offset
  | some q =>
    -- The request comes first and gives no path.
    rw [blockParts, Option.map_some, Option.toList_some, List.singleton_append, List.map_cons,
      Entry.ofGroups, Trail.forEach]
    exact (hdocument q offset).bind (hrest _)

/-- A printed block gives the paths of the relations in it while as many levels are left as its
    blocks nest. -/
theorem finds_traceLevel_blockParts (maxDepth : Nat) {levels : Nat} {children : List Relation}
    (h : ∀ r ∈ children, Printable r) (hheight : heightAll children ≤ levels)
    (query : Option Request) (outer : Option String) (offset : Nat) :
    Finds
      (Policy.traceLevel ⟨.lenient, maxDepth⟩ levels outer
        ⟨Text.join [','] (blockParts query children), offset⟩)
      (pathsOfAllBelow outer children) := by
  induction levels generalizing children query outer offset with
  | zero =>
    rw [traceLevel]
    refine finds_forEach_blockParts h (fun q => finds_traceEntry_document q _ _ _ _) ?_ _ _
    rintro ⟨name, q, inside⟩ hr offset
    refine finds_traceEntry_render _ (h _ hr) (fun hblock => ?_) outer offset
    -- Without levels left there is no block.
    exact absurd (heightAll_lt_of_mem hheight hr hblock) (Nat.not_lt_zero _)
  | succ levels ih =>
    rw [traceLevel]
    refine finds_forEach_blockParts h (fun q => finds_traceEntry_document q _ _ _ _) ?_ _ _
    rintro ⟨name, q, inside⟩ hr offset
    have hprintable := h _ hr
    refine finds_traceEntry_render _ hprintable
      (fun hblock => ⟨by omega, fun path offset => ?_⟩) outer offset
    obtain ⟨-, -, hinside⟩ := hprintable
    have hlevels := Nat.lt_succ_iff.1 (heightAll_lt_of_mem hheight hr hblock)
    exact ih hinside hlevels q (some path) offset

end Policy

/-! ## §5 Relation lists -/

theorem outermost_levelText {rs : List Relation} (h : ∀ r ∈ rs, Printable r) :
    outermost (levelText rs) = ⟨levelText rs, 0⟩ := by
  have hlevel : IsLevel WritesRequest (heightAll rs) (levelText rs) rs :=
    isLevel_levelText fun r hr => (h r hr).isItem (heightAll_le_iff.1 (Nat.le_refl _) r hr)
  have htrim := Text.trim_eq_self (head?_levelText h) (getLast?_levelText h)
  rw [hlevel.outermost_eq, htrim, Text.takeWhile_isBlank_eq_nil (head?_levelText h)]
  rfl

/-- The printed list of printable relations is the text of a level. -/
theorem toList_listText {rs : List Relation} (h : ∀ r ∈ rs, Printable r) :
    (listText rs).toList = levelText rs := by
  -- No relation prints as nothing, so the list keeps all of them.
  have hdrop : (rs.map render).dropWhile List.isEmpty = rs.map render := by
    cases rs with
    | nil => rfl
    | cons r rest =>
      have hr : ¬r.render.isEmpty = true := by
        simpa using (h r List.mem_cons_self).render_ne_nil
      rw [List.map_cons, List.dropWhile_cons_of_neg hr]
  rw [listText, String.toList_ofList, renderList, renderAll_eq_map, hdrop]
  rfl

/-- **Printing and reading give the same relations**: under either mode, the text of printable
    relations is read as exactly these relations, and the lenient reading of paths finds exactly
    their paths, as long as their blocks nest no deeper than blocks are entered. -/
theorem read_listText (maxDepth : Nat) (rs : List Relation) (h : ∀ r ∈ rs, Printable r)
    (hheight : heightAll rs ≤ maxDepth) :
    (∀ mode, (Policy.mk mode maxDepth).readForest (listText rs) = .ok rs) ∧
      (Policy.mk .lenient maxDepth).readPaths (listText rs) = .ok (pathsOfAll rs) := by
  constructor
  · intro mode
    unfold Policy.readForest Policy.traceForest
    rw [toList_listText h, outermost_levelText h, Policy.readLevel_levelText _ h hheight]
    rfl
  · obtain ⟨hresult, hpaths⟩ :=
      Policy.finds_traceLevel_blockParts maxDepth h hheight none none 0
    rw [pathsOfAllBelow_eq_flatMap] at hpaths
    unfold Policy.readPaths Policy.tracePaths
    rw [toList_listText h, outermost_levelText h]
    dsimp only
    rw [show levelText rs = Text.join [','] (blockParts none rs) from rfl, hresult, hpaths]
    rfl

/-- A relation list with a request whose text holds braces, a quote and a comma, a relation behind
    it, and a relation that only has an empty request. -/
def quotedForest : List Relation :=
  [⟨"posts", some { nested := "x\x7b\"\x7d,", limit := some 5 }, [⟨"latest reply", none, []⟩]⟩,
    ⟨"tags", some {}, []⟩]

/-- Strings in an embedded request do not disturb the reading of the list around it. -/
theorem read_listText_quotedForest :
    (∀ r ∈ quotedForest, Printable r) ∧ heightAll quotedForest ≤ 1 ∧
      (∀ mode, (Policy.mk mode 1).readForest (listText quotedForest) = .ok quotedForest) ∧
      (Policy.mk .lenient 1).readPaths (listText quotedForest) =
        .ok ["posts", "posts.latest reply", "tags"] := by
  have hreply : Printable ⟨"latest reply", none, []⟩ :=
    ⟨by decide, by simp, by simp⟩
  have hposts : Printable quotedForest[0] := by
    refine ⟨by decide, ?_, by simpa using hreply⟩
    rintro q ⟨⟩
    rfl
  have htags : Printable quotedForest[1] := by
    refine ⟨by decide, ?_, by simp⟩
    rintro q ⟨⟩
    rfl
  have hprintable : ∀ r ∈ quotedForest, Printable r := by
    simpa [quotedForest] using ⟨hposts, htags⟩
  have hheight : heightAll quotedForest ≤ 1 := by decide
  obtain ⟨hforest, hread⟩ := read_listText 1 quotedForest hprintable hheight
  have hpaths : pathsOfAll quotedForest = ["posts", "posts.latest reply", "tags"] := by decide
  rw [hpaths] at hread
  exact ⟨hprintable, hheight, hforest, hread⟩

end ListQuery.Relation
