import ListQuery.Proofs.Relation.Lenient

/-!
# Relation lists side by side

Two relation lists with a comma between them make up one list, and a lenient reading of it gives
what the readings of the two give, one after the other. The first list may hold anything but a brace
that stays open, which would take the second list into its block. Neither list may begin with a
brace, so that no braces are stripped from either of them, nor from the list that they make up.

The comma ends the last entry of the first list, whatever is wrong with that entry, and the search
for a closing brace never looks at what stands behind it. At the seam the blanks of both lists come
to stand around the comma, where they mean nothing.

## Main statements

- `forestIn_append_comma`: the relations in two texts with a comma between them;
- `sibling_lists_compose`: the readings of two relation lists.
-/

namespace ListQuery.Relation

/-- The relations in two texts with a comma between them, if no brace of the first one stays
    open. -/
theorem forestIn_append_comma (split : List Char → Option Request × List Char) (levels : Nat)
    {s : List Char} (h : ∀ body, Piece.unclosed body ∉ pieces s) (t : List Char) :
    forestIn split levels (s ++ ',' :: t) = forestIn split levels s ++ forestIn split levels t := by
  cases levels <;> rw [forestIn, forestIn, forestIn, keptIn_append_comma h, List.map_append]

/-- A text begins with no brace if what stands in front of its first comma does not. -/
theorem head?_trim_append_comma {s : List Char} (h : ∀ c ∈ (Text.trim s).head?, c ≠ '{')
    (t : List Char) : ∀ c ∈ (Text.trim (s ++ ',' :: t)).head?, c ≠ '{' := by
  rw [Text.head?_trim_eq] at h ⊢
  by_cases hs : Text.trimStart s = []
  · -- Only blanks stand in front of the comma.
    rw [Text.trimStart_append_of_blanks (Text.trimStart_eq_nil_iff.1 hs)]
    rintro c ⟨⟩
    decide
  · rwa [Text.trimStart_append hs, List.head?_append_of_ne_nil _ hs]

/-- **Lists side by side are read one after the other.** Take two relation lists that do not begin
    with a brace, blanks apart, the first of them without a brace that stays open. Whatever else is
    wrong with them, lenient readings of the list that they make up with a comma between them give
    the relations and the paths of the first one, and then those of the second one. -/
theorem sibling_lists_compose (maxDepth : Nat) (first second : String)
    (hfirst : ∀ c ∈ (Text.trim first.toList).head?, c ≠ '{')
    (hsecond : ∀ c ∈ (Text.trim second.toList).head?, c ≠ '{')
    (hclosed : ∀ body, Piece.unclosed body ∉ pieces first.toList) :
    (∃ rs ss, (Policy.mk .lenient maxDepth).readForest first = .ok rs ∧
        (Policy.mk .lenient maxDepth).readForest second = .ok ss ∧
        (Policy.mk .lenient maxDepth).readForest (first ++ "," ++ second) = .ok (rs ++ ss)) ∧
      ∃ ps qs, (Policy.mk .lenient maxDepth).readPaths first = .ok ps ∧
        (Policy.mk .lenient maxDepth).readPaths second = .ok qs ∧
        (Policy.mk .lenient maxDepth).readPaths (first ++ "," ++ second) = .ok (ps ++ qs) := by
  have hboth : (first ++ "," ++ second).toList = first.toList ++ ',' :: second.toList := by
    simp
  have hforest {split : List Char → Option Request × List Char} (hsplit : KeepsBlanks split) :
      forestIn split maxDepth (outermost (first ++ "," ++ second).toList).text =
        forestIn split maxDepth (outermost first.toList).text ++
          forestIn split maxDepth (outermost second.toList).text := by
    rw [hboth, forestIn_outermost hsplit _ hfirst, forestIn_outermost hsplit _ hsecond,
      forestIn_outermost hsplit _ (head?_trim_append_comma hfirst _),
      forestIn_append_comma split _ hclosed]
  constructor
  · refine ⟨_, _, readForest_lenient maxDepth first, readForest_lenient maxDepth second, ?_⟩
    rw [readForest_lenient, hforest keepsBlanks_splitRequest]
  · refine ⟨_, _, readPaths_lenient maxDepth first, readPaths_lenient maxDepth second, ?_⟩
    have houtline : outline maxDepth (first ++ "," ++ second) =
        outline maxDepth first ++ outline maxDepth second := hforest keepsBlanks_splitNothing
    rw [readPaths_lenient, houtline, pathsOfAllBelow_append]

/-- A malformed list in which every brace is closed: a closing brace too many, an entry without a
    name, text behind a block, and a quote without a second one. -/
def closedList : String :=
  "posts \x7b \x7b\"limit\": 5\x7d, author \x7d \x7d x, , ta\"gs "

/-- A list whose last block stays open. -/
def openList : String :=
  " \x7d likes \x7b users \x7d, id \x7b owner "

theorem sibling_lists_compose_closedList :
    (∀ c ∈ (Text.trim closedList.toList).head?, c ≠ '{') ∧
      (∀ c ∈ (Text.trim openList.toList).head?, c ≠ '{') ∧
      (∀ body, Piece.unclosed body ∉ pieces closedList.toList) ∧
      (Policy.mk .lenient 1).readForest (closedList ++ "," ++ openList) =
        .ok [⟨"posts", some { limit := some 5 }, [⟨"author", none, []⟩]⟩, ⟨"ta\"gs", none, []⟩,
          ⟨"likes", none, [⟨"users", none, []⟩]⟩, ⟨"id", none, [⟨"owner", none, []⟩]⟩] ∧
      (Policy.mk .lenient 1).readPaths (closedList ++ "," ++ openList) =
        .ok ["posts", "posts.author", "ta\"gs", "likes", "likes.users", "id", "id.owner"] := by
  have hhead : (Text.trim closedList.toList).head? = some 'p' := by decide +kernel
  have hhead' : (Text.trim openList.toList).head? = some '}' := by decide +kernel
  have hfirst : ∀ c ∈ (Text.trim closedList.toList).head?, c ≠ '{' := by simp [hhead]
  have hsecond : ∀ c ∈ (Text.trim openList.toList).head?, c ≠ '{' := by simp [hhead']
  -- What stands behind an open brace is its piece without the brace.
  have hpieces : ∀ p ∈ pieces closedList.toList, p ≠ .unclosed p.text.tail := by decide +kernel
  have hclosed : ∀ body, Piece.unclosed body ∉ pieces closedList.toList :=
    fun _ hmem => hpieces _ hmem rfl
  have hforest : (Policy.mk .lenient 1).readForest closedList =
      .ok [⟨"posts", some { limit := some 5 }, [⟨"author", none, []⟩]⟩,
        ⟨"ta\"gs", none, []⟩] := toOption_eq_some.1 (by decide +kernel)
  have hforest' : (Policy.mk .lenient 1).readForest openList =
      .ok [⟨"likes", none, [⟨"users", none, []⟩]⟩, ⟨"id", none, [⟨"owner", none, []⟩]⟩] :=
    toOption_eq_some.1 (by decide +kernel)
  have hpaths : (Policy.mk .lenient 1).readPaths closedList =
      .ok ["posts", "posts.author", "ta\"gs"] := toOption_eq_some.1 (by decide +kernel)
  have hpaths' : (Policy.mk .lenient 1).readPaths openList =
      .ok ["likes", "likes.users", "id", "id.owner"] := toOption_eq_some.1 (by decide +kernel)
  obtain ⟨⟨rs, ss, hrs, hss, hboth⟩, ps, qs, hps, hqs, hboth'⟩ :=
    sibling_lists_compose 1 closedList openList hfirst hsecond hclosed
  obtain rfl := Except.ok.inj (hrs.symm.trans hforest)
  obtain rfl := Except.ok.inj (hss.symm.trans hforest')
  obtain rfl := Except.ok.inj (hps.symm.trans hpaths)
  obtain rfl := Except.ok.inj (hqs.symm.trans hpaths')
  exact ⟨hfirst, hsecond, hclosed, hboth, hboth'⟩

end ListQuery.Relation
