import ListQuery.Proofs.Relation.Lenient

/-!
# Repaired relation lists

A relation list is *repaired* by taking out every closing brace that closes nothing and closing all
braces that are left open at its end. In a list without double quotes that is all that a lenient
reading makes of wrong braces, although it meets them in different places: it takes closing braces
out of the names of one level at a time, and ends a block that is not closed where the text ends.

Repairing is done once for the whole text. On a level it takes out the pieces that are closing
braces and closes the last piece if it is open; and inside the blocks it repairs what is left open
there, as a block that is closed has nothing to repair.

## Main definitions

- `repair`: the repaired text.

## Main statements

- `closes_repair`: a repaired text closes all that it opens;
- `pieces_repair`, `keptIn_repair`: a level of the repaired text;
- `forestIn_repair`: the relations in the repaired text;
- `readPaths_repair`: the paths of a repaired relation list.
-/

namespace ListQuery.Relation

/-! ## §1 Repairing a text -/

/-- A text behind `depth` open braces, without the closing braces that close nothing, and with all
    braces closed at its end that are still open there. -/
def repair : (depth : Nat) → List Char → List Char
  | depth, [] => List.replicate depth '}'
  | depth, c :: s =>
    if c = '{' then c :: repair (depth + 1) s
    else if c = '}' then
      match depth with
      | 0 => repair 0 s
      | depth + 1 => c :: repair depth s
    else c :: repair depth s

theorem repair_open (depth : Nat) (s : List Char) :
    repair depth ('{' :: s) = '{' :: repair (depth + 1) s := by
  cases depth <;> rfl

theorem repair_zero_close (s : List Char) : repair 0 ('}' :: s) = repair 0 s :=
  rfl

theorem repair_succ_close (depth : Nat) (s : List Char) :
    repair (depth + 1) ('}' :: s) = '}' :: repair depth s :=
  rfl

theorem repair_char (depth : Nat) {c : Char} (hopen : c ≠ '{') (hclose : c ≠ '}')
    (s : List Char) : repair depth (c :: s) = c :: repair depth s := by
  cases depth <;> simp [repair, hopen, hclose]

/-- A repaired text closes the braces in front of it and all that it opens. -/
theorem closes_repair (depth : Nat) (s : List Char) : Closes depth (repair depth s) := by
  induction depth, s using repair.induct with
  | case1 depth =>
    -- All that is still open is closed at the end.
    rw [repair]
    induction depth with
    | zero => exact closes_nil_iff.2 rfl
    | succ depth ih => exact (closes_close_iff _).2 ih
  | case2 depth s ih =>
    rw [repair_open]
    exact (closes_open_iff _).2 ih
  | case3 s _ ih =>
    rw [repair_zero_close]
    exact ih
  | case4 s depth _ ih =>
    rw [repair_succ_close]
    exact (closes_close_iff _).2 ih
  | case5 depth c s hopen hclose ih =>
    rw [repair_char depth hopen hclose]
    exact (closes_char_iff hopen hclose _).2 ih

/-- There is nothing to repair in a text that closes the braces in front of it and all that it
    opens. -/
theorem repair_append_of_closes {depth : Nat} {s : List Char} (h : Closes depth s) (more : Nat)
    (t : List Char) : repair (depth + more) (s ++ t) = s ++ repair more t := by
  induction depth, s using repair.induct with
  | case1 depth =>
    obtain rfl := closes_nil_iff.1 h
    rw [Nat.zero_add]
    rfl
  | case2 depth s ih =>
    rw [List.cons_append, repair_open, Nat.add_right_comm, ih ((closes_open_iff s).1 h)]
    rfl
  -- Every closing brace closes something.
  | case3 s _ _ => exact absurd h (not_closes_zero_close s)
  | case4 s depth _ ih =>
    rw [List.cons_append, Nat.succ_add, repair_succ_close, ih ((closes_close_iff s).1 h)]
    rfl
  | case5 depth c s hopen hclose ih =>
    rw [List.cons_append, repair_char _ hopen hclose, ih ((closes_char_iff hopen hclose s).1 h)]
    rfl

theorem repair_of_closes {s : List Char} (h : Closes 0 s) : repair 0 s = s := by
  have happend := repair_append_of_closes h 0 []
  rwa [List.append_nil, Nat.zero_add, repair, List.replicate_zero, List.append_nil] at happend

/-- Where a block is not closed, its brace is closed behind everything else. -/
theorem repair_succ_of_closing_eq_none {depth : Nat} {s : List Char} (hquote : '"' ∉ s)
    (h : closing depth .outside s = none) : repair (depth + 1) s = repair depth s ++ ['}'] := by
  induction depth, s using repair.induct with
  | case1 depth => rw [repair, repair, List.replicate_succ']
  | case2 depth s ih =>
    have hrest := ih (List.not_mem_of_not_mem_cons hquote) (Option.map_eq_none_iff.1 h)
    rw [repair_open, repair_open, hrest]
    rfl
  -- The search ends at a brace that closes nothing here.
  | case3 s _ _ => cases h
  | case4 s depth _ ih =>
    have hrest := ih (List.not_mem_of_not_mem_cons hquote) (Option.map_eq_none_iff.1 h)
    rw [repair_succ_close, repair_succ_close, hrest]
    rfl
  | case5 depth c s hopen hclose ih =>
    obtain ⟨hc, hs⟩ := not_or.1 fun hmem => hquote (List.mem_cons.2 hmem)
    have hnext : Quoting.outside.next c = .outside := by simp [Quoting.next, Ne.symm hc]
    simp only [closing, if_neg hclose, if_neg hopen, hnext] at h
    have hrest := ih hs (Option.map_eq_none_iff.1 h)
    rw [repair_char _ hopen hclose, repair_char _ hopen hclose, hrest]
    rfl

/-- Nothing but closing braces comes in. -/
theorem mem_of_mem_repair {c : Char} (hc : c ≠ '}') {depth : Nat} {s : List Char}
    (h : c ∈ repair depth s) : c ∈ s := by
  induction depth, s using repair.induct with
  | case1 depth =>
    rw [repair] at h
    exact absurd (List.eq_of_mem_replicate h) hc
  | case2 depth s ih =>
    rw [repair_open] at h
    exact List.mem_cons.2 ((List.mem_cons.1 h).imp_right ih)
  | case3 s _ ih => exact List.mem_cons_of_mem _ (ih h)
  | case4 s depth _ ih => exact List.mem_cons.2 ((List.mem_cons.1 h).imp_right ih)
  | case5 depth d s hopen hclose ih =>
    rw [repair_char depth hopen hclose] at h
    exact List.mem_cons.2 ((List.mem_cons.1 h).imp_right ih)

/-- A text without braces is passed over. -/
theorem repair_plain_append (depth : Nat) {u : List Char} (hu : ∀ c ∈ u, c ≠ '{' ∧ c ≠ '}')
    (s : List Char) : repair depth (u ++ s) = u ++ repair depth s := by
  induction u with
  | nil => rfl
  | cons c u ih =>
    obtain ⟨hopen, hclose⟩ := hu c List.mem_cons_self
    rw [List.cons_append, repair_char depth hopen hclose,
      ih fun d hd => hu d (List.mem_cons_of_mem _ hd)]
    rfl

/-! ## §2 Repaired levels -/

/-- What becomes of a piece of a level. -/
def Piece.mend : Piece → Option Piece
  | .comma => some .comma
  | .char c => if c = '}' then none else some (.char c)
  | .block body | .unclosed body => some (.block (repair 0 body))

theorem cutBlock_of_closes {body : List Char} (hquote : '"' ∉ body) (h : Closes 0 body)
    (t : List Char) : cutBlock (body ++ '}' :: t) = some (body, t) := by
  have hclosed : cutBlock (body ++ ['}']) = some (body, []) :=
    (cutBlock_eq_some_nil_iff (by simpa using hquote)).2 ⟨rfl, h⟩
  have happend := closing_append t hclosed
  rwa [List.append_assoc] at happend

/-- The pieces of a repaired text are the repaired pieces. -/
theorem pieces_repair {s : List Char} (hquote : '"' ∉ s) :
    pieces (repair 0 s) = (pieces s).filterMap Piece.mend := by
  fun_induction pieces s with
  | case1 =>
    rw [repair, List.replicate_zero, pieces_nil]
    rfl
  | case2 s ih =>
    rw [repair_char 0 (by decide) (by decide), pieces_comma,
      ih (List.not_mem_of_not_mem_cons hquote)]
    rfl
  | case3 s body rest hcut _ ih =>
    have hs := List.not_mem_of_not_mem_cons hquote
    obtain ⟨rfl, hbody⟩ := (closing_eq_some_iff hs).1 hcut
    obtain ⟨hquoteBody, hquoteRest⟩ : '"' ∉ body ∧ '"' ∉ rest := by simpa using hs
    have hopened : repair 1 (body ++ '}' :: rest) = body ++ '}' :: repair 0 rest :=
      repair_append_of_closes hbody 1 ('}' :: rest)
    rw [repair_open, hopened, pieces_of_cutBlock (cutBlock_of_closes hquoteBody hbody _),
      ih hquoteRest]
    -- A closed block stays as it is.
    exact congrArg (Piece.block · :: _) (repair_of_closes hbody).symm
  | case4 s hcut _ =>
    have hs := List.not_mem_of_not_mem_cons hquote
    -- The open block is closed at the end, behind all that is left open in it.
    have hopened : repair 1 s = repair 0 s ++ '}' :: [] := repair_succ_of_closing_eq_none hs hcut
    have hquote' : '"' ∉ repair 0 s := fun hmem => hs (mem_of_mem_repair (by decide) hmem)
    rw [repair_open, hopened, pieces_of_cutBlock (cutBlock_of_closes hquote' (closes_repair 0 s) _),
      pieces_nil]
    rfl
  | case5 c s hcomma hopen ih =>
    have hrest := ih (List.not_mem_of_not_mem_cons hquote)
    by_cases hclose : c = '}'
    · rw [hclose, repair_zero_close, hrest]
      rfl
    · have hmend : Piece.mend (.char c) = some (.char c) := if_neg hclose
      rw [repair_char 0 hopen hclose, pieces_char hcomma hopen, hrest,
        List.filterMap_cons_some hmend]

/-- What becomes of what is kept of an entry. -/
def Kept.mend (k : Kept) : Kept :=
  { k with body := k.body.map (repair 0) }

theorem nameOf_filter (s : List Char) : nameOf (s.filter (· ≠ '}')) = nameOf s := by
  unfold nameOf
  rw [List.filter_filter]
  simp only [Bool.and_self]

theorem filterMap_mend_map_char (s : List Char) :
    (s.map .char).filterMap Piece.mend = (s.filter (· ≠ '}')).map .char := by
  induction s with
  | nil => rfl
  | cons c s ih =>
    by_cases hclose : c = '}'
    · simp [Piece.mend, hclose, ih]
    · simp [Piece.mend, hclose, ih]

theorem keptOf_mend (g : List Piece) :
    keptOf (g.filterMap Piece.mend) = (keptOf g).map Kept.mend := by
  have hkept (s : List Char) (body : Option (List Char)) :
      keptAs (s.filter (· ≠ '}')) (body.map (repair 0)) = (keptAs s body).map Kept.mend := by
    unfold keptAs
    rw [nameOf_filter]
    split <;> rfl
  obtain ⟨s, rest, rfl, hrest⟩ := exists_eq_map_char_append g
  rw [List.filterMap_append, filterMap_mend_map_char]
  cases rest with
  | nil =>
    rw [List.filterMap_nil, List.append_nil, List.append_nil, keptOf_chars, keptOf_chars, ← hkept]
    rfl
  | cons p ps =>
    rw [keptOf_chars_cons s (hrest p rfl), ← hkept]
    cases p with
    | char c => exact absurd (hrest _ rfl) (by simp [Piece.isChar])
    | comma => exact keptOf_chars_cons _ (p := .comma) rfl _
    | block body => exact keptOf_chars_cons _ (p := .block (repair 0 body)) rfl _
    | unclosed body => exact keptOf_chars_cons _ (p := .block (repair 0 body)) rfl _

theorem keptFrom_mend (g ps : List Piece) :
    keptFrom (g.filterMap Piece.mend) (ps.filterMap Piece.mend) =
      (keptFrom g ps).map Kept.mend := by
  have hend (g : List Piece) : (keptOf (g.filterMap Piece.mend)).toList =
      (keptOf g).toList.map Kept.mend := by
    rw [keptOf_mend]
    cases keptOf g <;> rfl
  fun_induction keptFrom g ps with
  | case1 g => exact hend g
  | case2 g ps ih =>
    have hcomma : Piece.mend .comma = some .comma := rfl
    rw [List.filterMap_cons_some hcomma, keptFrom, hend, List.map_append, ← ih, List.filterMap_nil]
  | case3 g p ps hp ih =>
    rw [← ih, List.filterMap_append]
    cases hmend : p.mend with
    | none =>
      -- A closing brace is gone from the entry and from the pieces to come.
      rw [List.filterMap_cons_none hmend, List.filterMap_cons_none hmend, List.filterMap_nil,
        List.append_nil]
    | some q =>
      -- No other piece becomes a comma, so the entry goes on.
      have hq : q ≠ .comma := by
        rintro rfl
        cases p <;> simp [Piece.mend] at hmend hp
      rw [List.filterMap_cons_some hmend, List.filterMap_cons_some hmend, List.filterMap_nil,
        keptFrom_cons hq]

/-- What is kept of a repaired text has the same names, and repaired blocks. -/
theorem keptIn_repair {s : List Char} (hquote : '"' ∉ s) :
    keptIn (repair 0 s) = (keptIn s).map Kept.mend := by
  rw [keptIn_eq_keptFrom, keptIn_eq_keptFrom, pieces_repair hquote]
  exact keptFrom_mend [] (pieces s)

/-! ## §3 Repaired relation lists -/

/-- Repairing a text leaves the relations in it as they are. -/
theorem forestIn_repair (levels : Nat) {s : List Char} (hquote : '"' ∉ s) :
    forestIn splitNothing levels (repair 0 s) = forestIn splitNothing levels s := by
  -- The block of a repaired text is a repaired block, which is read with one level less.
  induction levels generalizing s with
  | zero =>
    rw [forestIn, forestIn, keptIn_repair hquote, List.map_map]
    rfl
  | succ levels ih =>
    rw [forestIn, forestIn, keptIn_repair hquote, List.map_map]
    refine List.map_congr_left fun k hk => ?_
    cases hbody : k.body with
    | none => simp [Kept.relation, Kept.mend, hbody]
    | some body =>
      have hquote' : '"' ∉ body := fun hmem => hquote (subset_of_mem_keptIn hk hbody hmem)
      simp [Kept.relation, Kept.mend, hbody, splitNothing, ih hquote']

/-- A text that begins with a brace begins with it when it is repaired. -/
theorem head?_trim_repair {s : List Char} (h : ∀ c ∈ (Text.trim (repair 0 s)).head?, c ≠ '{') :
    ∀ c ∈ (Text.trim s).head?, c ≠ '{' := by
  rintro c hc rfl
  obtain ⟨t, ht⟩ := List.head?_eq_some_iff.1 hc
  obtain ⟨u, v, hu, -, hs⟩ := Text.padded_trim s
  have hplain : ∀ c ∈ u, c ≠ '{' ∧ c ≠ '}' := fun c hc => (isPlain_of_isBlank (hu c hc)).1.2
  rw [hs, ht, List.append_assoc, List.cons_append, repair_plain_append 0 hplain, repair_open,
    Text.trim_blanks_append hu, Text.trim, Text.trimStart_eq_self (by simp; decide),
    Text.trimEnd_cons (by decide)] at h
  exact h '{' rfl rfl

/-- **A lenient reading repairs.** Take a relation list without double quotes, and repair it: take
    the closing braces out that close nothing, and close the braces at its end that are left open.
    If the repaired list does not begin with a brace, blanks apart, a lenient reading finds the same
    paths in either. -/
theorem readPaths_repair (maxDepth : Nat) (source : String) (hquote : '"' ∉ source.toList)
    (hopen : ∀ c ∈ (Text.trim (repair 0 source.toList)).head?, c ≠ '{') :
    ∃ paths, (Policy.mk .lenient maxDepth).readPaths source = .ok paths ∧
      (Policy.mk .lenient maxDepth).readPaths (String.ofList (repair 0 source.toList)) =
        .ok paths := by
  refine ⟨_, readPaths_lenient maxDepth source, ?_⟩
  have houtline : outline maxDepth (String.ofList (repair 0 source.toList)) =
      outline maxDepth source := by
    unfold outline
    rw [String.toList_ofList, outermost_of_not_open hopen,
      outermost_of_not_open (head?_trim_repair hopen)]
    dsimp only
    rw [forestIn_trim keepsBlanks_splitNothing, forestIn_trim keepsBlanks_splitNothing,
      forestIn_repair maxDepth hquote]
  rw [readPaths_lenient, houtline]

/-- A relation list with two closing braces that close nothing, one of them behind a block, and with
    two braces that are left open. -/
def brokenList : String :=
  "id \x7d, posts \x7b author \x7b profile \x7d\x7d \x7d x, tags \x7b likes \x7b users "

theorem readPaths_repair_brokenList :
    '"' ∉ brokenList.toList ∧
      (∀ c ∈ (Text.trim (repair 0 brokenList.toList)).head?, c ≠ '{') ∧
      (Policy.mk .lenient 2).readPaths
          "id , posts \x7b author \x7b profile \x7d\x7d  x, tags \x7b likes \x7b users \x7d\x7d" =
        .ok ["id", "posts", "posts.author", "posts.author.profile", "tags", "tags.likes",
          "tags.likes.users"] := by
  have hquote : '"' ∉ brokenList.toList := by decide +kernel
  have hhead : (Text.trim (repair 0 brokenList.toList)).head? = some 'i' := by decide +kernel
  have hopen : ∀ c ∈ (Text.trim (repair 0 brokenList.toList)).head?, c ≠ '{' := by
    rw [hhead]
    rintro c ⟨⟩
    decide
  have hrepair : String.ofList (repair 0 brokenList.toList) =
      "id , posts \x7b author \x7b profile \x7d\x7d  x, tags \x7b likes \x7b users \x7d\x7d" := by
    decide +kernel
  have hread : (Policy.mk .lenient 2).readPaths brokenList =
      .ok ["id", "posts", "posts.author", "posts.author.profile", "tags", "tags.likes",
        "tags.likes.users"] := by
    decide +kernel
  obtain ⟨paths, hsource, hrepaired⟩ := readPaths_repair 2 brokenList hquote hopen
  rw [hrepair, ← hsource, hread] at hrepaired
  exact ⟨hquote, hopen, hrepaired⟩

end ListQuery.Relation
