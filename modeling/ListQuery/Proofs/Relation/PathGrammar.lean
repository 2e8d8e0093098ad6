import ListQuery.Proofs.Relation.Outermost
import ListQuery.Proofs.Relation.RoundTrip

/-!
# The relation lists that a strict reading of paths accepts

A strict reading of paths accepts the texts that derive from the grammar of relation lists without
objects, and no others, and it finds the paths of the relations that the text derives.

That it accepts them follows the derivation. That it accepts no others goes by induction on the
levels that are left, and within a level from comma to comma: an entry is only accepted if it is
sound, and the pieces of a sound entry are those of an item.

## Main statements

- `Entry.Sound.exists_isName`: the text of a sound entry;
- `finds_of_isLevel`: the paths of a text that derives from the grammar;
- `exists_isLevel_of_finds`: a text that is read strictly derives from the grammar;
- `readPaths_strict_eq_ok_iff`: the relation lists of which a strict reading finds the paths.
-/

namespace ListQuery.Relation

open Text (byteLength Blanks Padded)

/-! ## §1 Pieces of unquoted texts -/

/-- Pieces as a text without quotes is cut into them. -/
structure Unquoted (ps : List Piece) : Prop where
  plain : ∀ c, Piece.char c ∈ ps → c ≠ ',' ∧ c ≠ '{'
  noQuote : '"' ∉ texts ps

theorem unquoted_pieces {s : List Char} (h : '"' ∉ s) : Unquoted (pieces s) :=
  ⟨fun _ hc => char_of_mem_pieces hc, by rwa [texts_pieces]⟩

theorem unquoted_append {ps qs : List Piece} (h : Unquoted (ps ++ qs)) :
    Unquoted ps ∧ Unquoted qs := by
  obtain ⟨hplain, hquote⟩ := h
  rw [texts_append, List.mem_append, not_or] at hquote
  exact ⟨⟨fun c hc => hplain c (List.mem_append_left _ hc), hquote.1⟩,
    ⟨fun c hc => hplain c (List.mem_append_right _ hc), hquote.2⟩⟩

theorem unquoted_cons {p : Piece} {ps : List Piece} (h : Unquoted (p :: ps)) :
    '"' ∉ p.text ∧ Unquoted ps := by
  obtain ⟨hplain, hquote⟩ := h
  rw [texts_cons, List.mem_append, not_or] at hquote
  exact ⟨hquote.1, fun c hc => hplain c (List.mem_cons_of_mem _ hc), hquote.2⟩

/-- The characters of a sound entry's name make up a name with blanks around it. -/
theorem isName_ofList_trim {s : List Char} (h : Unquoted (s.map .char)) (hclose : '}' ∉ s)
    (hne : Text.trim s ≠ []) : IsName (String.ofList (Text.trim s)) := by
  obtain ⟨hplain, hquote⟩ := h
  rw [texts_map_char] at hquote
  refine ⟨by simpa using hne, ?_, ?_, ?_⟩ <;> rw [String.toList_ofList]
  · exact Text.head?_trim s
  · exact Text.getLast?_trim s
  · intro c hc
    have hmem : c ∈ s := Text.mem_trim hc
    obtain ⟨hcomma, hopen⟩ := hplain c (List.mem_map_of_mem hmem)
    exact ⟨hopen, fun heq => hclose (heq ▸ hmem), hcomma, fun heq => hquote (heq ▸ hmem)⟩

/-- A sound entry is a name with blanks around it, or such a name and a closed block. -/
theorem Entry.Sound.exists_isName {ps : List Piece} (hps : Unquoted ps) (hcomma : .comma ∉ ps)
    {offset levels : Nat} (h : (Entry.ofPieces offset ps).Sound levels) :
    ∃ name, IsName name ∧ (Entry.ofPieces offset ps).relationName = name.toList ∧
      (((Entry.ofPieces offset ps).block = none ∧ Padded name.toList (texts ps)) ∨
        ∃ s body u openAt, (Entry.ofPieces offset ps).block = some ⟨openAt, body, true⟩ ∧
          0 < levels ∧ texts ps = s ++ ('{' :: body ++ '}' :: u) ∧ Padded name.toList s ∧
          Blanks u) := by
  obtain ⟨s, rest, rfl, hrest⟩ := exists_eq_map_char_append ps
  obtain ⟨hs, htail⟩ := unquoted_append hps
  obtain ⟨hstray, hname, hblock⟩ := h
  -- The characters in front of the block are the name and the blanks around it.
  have hclose : '}' ∉ s := by
    rw [ofPieces_strayClose, strayClose?_eq_none_iff] at hstray
    simpa using (not_or.1 fun hmem => hstray (List.mem_append.2 hmem)).1
  have htext : (Entry.ofPieces offset (s.map .char ++ rest)).name.text = s := by
    cases rest with
    | nil => rw [List.append_nil, ofPieces_chars]
    | cons p ps => rw [ofPieces_chars_cons offset s (hrest p rfl)]
  have hrelation : (Entry.ofPieces offset (s.map .char ++ rest)).relationName = Text.trim s := by
    rw [Entry.relationName_eq_trim (by rwa [htext]), htext]
  rw [hrelation] at hname ⊢
  refine ⟨String.ofList (Text.trim s), isName_ofList_trim hs hclose hname, ?_, ?_⟩
  · rw [String.toList_ofList]
  rw [String.toList_ofList]
  have hpadded := Text.padded_trim s
  cases rest with
  | nil =>
    left
    rw [List.append_nil, texts_map_char, ofPieces_chars]
    exact ⟨rfl, hpadded⟩
  | cons p ps =>
    right
    have hp : p.isChar = false := hrest p rfl
    rw [ofPieces_chars_cons offset s hp] at hblock ⊢
    cases p with
    | comma => simp at hcomma
    | char c => simp [Piece.isChar] at hp
    | unclosed body =>
      exact absurd (hblock _ rfl).1 (by simp)
    | block body =>
      obtain ⟨-, htrailing, hlevels⟩ := hblock _ rfl
      refine ⟨s, body, texts ps, _, rfl, hlevels, ?_, hpadded, Text.trim_eq_nil_iff.1 htrailing⟩
      rw [texts_append, texts_map_char, texts_cons]
      simp [Piece.text]

/-! ## §2 What a reading of paths finds -/

namespace Policy

theorem finds_pure_iff {paths : List String} : Finds (pure ()) paths ↔ paths = [] := by
  constructor
  · rintro ⟨-, rfl⟩
    rfl
  · rintro rfl
    exact finds_pure

theorem finds_bind_iff {t u : Trail Finding Unit} {paths : List String} :
    Finds (t >>= fun _ => u) paths ↔ ∃ ps qs, paths = ps ++ qs ∧ Finds t ps ∧ Finds u qs := by
  constructor
  · rintro ⟨hresult, rfl⟩
    obtain ⟨⟨⟩, ht, hu⟩ := Trail.result_bind_eq_ok_iff.1 hresult
    refine ⟨pathsIn t.log, pathsIn u.log, ?_, ⟨ht, rfl⟩, ⟨hu, rfl⟩⟩
    exact (Finds.bind ⟨ht, rfl⟩ ⟨hu, rfl⟩).2
  · rintro ⟨ps, qs, rfl, ht, hu⟩
    exact ht.bind hu

theorem finds_leave_path_iff {path : String} {paths : List String} :
    Finds (.leave (.path path)) paths ↔ paths = [path] := by
  constructor
  · rintro ⟨-, rfl⟩
    rfl
  · rintro rfl
    exact ⟨rfl, rfl⟩

/-- Steps that leave notices and no paths may come first. -/
theorem finds_notices_bind_iff {α : Type} {t : Trail Notice α} {next : α → Trail Finding Unit}
    {a : α} {paths : List String} (h : t.result = .ok a) :
    Finds (t.mapLog .notice >>= next) paths ↔ Finds (next a) paths := by
  obtain ⟨log, result⟩ := t
  obtain rfl : result = .ok a := h
  have hnotices : pathsIn (log.map .notice) = [] := by
    unfold pathsIn
    rw [List.filterMap_map]
    exact List.filterMap_eq_nil_iff.2 fun _ _ => rfl
  show _ ∧ pathsIn (log.map .notice ++ (next a).log) = paths ↔ _
  unfold pathsIn at hnotices ⊢
  rw [List.filterMap_append, hnotices]
  rfl

theorem readPaths_eq_ok_iff (policy : Policy) {source : String} {paths : List String} :
    policy.readPaths source = .ok paths ↔ Finds (policy.tracePaths source) paths := by
  unfold readPaths Finds
  generalize policy.tracePaths source = t
  obtain ⟨log, result⟩ := t
  cases result with
  | error e => simp [Except.map]
  | ok a => simp [Except.map]

/-- Read the paths within a block with so many levels left around it. -/
def traceInside (policy : Policy) : (levels : Nat) → (path : String) → Span → Trail Finding Unit
  | 0, _, _ => pure ()
  | levels + 1, path, inside => policy.traceLevel levels (some path) inside

theorem traceLevel_eq (policy : Policy) (levels : Nat) (outer : Option String) (level : Span) :
    policy.traceLevel levels outer level =
      Trail.forEach (policy.traceEntry levels (policy.traceInside levels) outer) level.entries := by
  cases levels <;> rfl

variable (policy : Policy) (maxDepth : Nat) {levels : Nat} {outer : Option String}

/-- A strict reading finds paths at an entry only if the entry is sound. -/
theorem sound_of_finds_traceEntry {e : Entry} {inner : String → Span → Trail Finding Unit}
    {paths : List String}
    (h : Finds ((Policy.mk .strict maxDepth).traceEntry levels inner outer e) paths) :
    e.Sound levels ∧ ∃ below,
      paths = pathBelow outer (String.ofList e.relationName) :: below ∧
        match e.block with
        | none => below = []
        | some b =>
          Finds (inner (pathBelow outer (String.ofList e.relationName)) b.content) below := by
  unfold traceEntry at h
  obtain ⟨accepted, haccept, -⟩ := Trail.result_bind_eq_ok_iff.1 h.1
  obtain ⟨hsound, -⟩ := (accept_strict_eq_ok_iff maxDepth).1 haccept
  refine ⟨hsound, ?_⟩
  -- The entry is accepted with its name and block, and its path is left first.
  rw [accept_of_sound _ hsound] at h
  obtain ⟨ps, below, rfl, hpath, hbelow⟩ := finds_bind_iff.1 h
  obtain rfl := finds_leave_path_iff.1 hpath
  refine ⟨below, rfl, ?_⟩
  cases hblock : e.block with
  | none =>
    rw [hblock] at hbelow
    exact finds_pure_iff.1 hbelow
  | some b =>
    rw [hblock] at hbelow
    exact hbelow

end Policy

/-! ## §3 What is accepted derives from the grammar -/

/-- No text is an object: the grammar of relation lists as paths are read from them. -/
def NoObject (_ : List Char) (_ : Request) : Prop :=
  False

namespace Policy

variable (maxDepth : Nat) {levels : Nat} {outer : Option String}

/-- An entry at which a strict reading finds paths is an item, provided that the blocks in which it
    finds paths are levels. -/
theorem exists_isItem_of_finds {ps : List Piece} (hps : Unquoted ps) (hcomma : .comma ∉ ps)
    {inner : String → Span → Trail Finding Unit}
    (hinner : ∀ path inside below, 0 < levels → '"' ∉ inside.text →
      Finds (inner path inside) below → ∃ rs, IsLevel NoObject (levels - 1) inside.text rs ∧
        below = pathsOfAllBelow (some path) rs)
    {offset : Nat} {paths : List String}
    (h : Finds ((Policy.mk .strict maxDepth).traceEntry levels inner outer
      (Entry.ofPieces offset ps)) paths) :
    ∃ r, IsItem NoObject levels (texts ps) r ∧ paths = pathsBelow outer r := by
  obtain ⟨hsound, below, rfl, hbelow⟩ := sound_of_finds_traceEntry maxDepth h
  obtain ⟨name, hname, hrelation, hcases⟩ := hsound.exists_isName hps hcomma
  rw [hrelation, String.ofList_toList] at hbelow ⊢
  rcases hcases with ⟨hblock, hpadded⟩ | ⟨s, body, u, openAt, hblock, hlevels, htexts, hpadded, hu⟩
  · rw [hblock] at hbelow
    obtain rfl : below = [] := hbelow
    exact ⟨_, .name hname hpadded, rfl⟩
  · rw [hblock] at hbelow
    have hquote : '"' ∉ body := by
      intro hmem
      apply hps.noQuote
      rw [htexts]
      simp [hmem]
    obtain ⟨children, hlevel, rfl⟩ := hinner _ _ _ hlevels hquote hbelow
    obtain ⟨levels, rfl⟩ := Nat.exists_eq_add_one.2 hlevels
    rw [htexts]
    exact ⟨_, .block hname hpadded (.level hlevel) hu, rfl⟩

/-- A level at whose entries a strict reading finds paths derives from the grammar, provided that
    its entries are items. -/
theorem exists_isLevel_of_forEach {f : Entry → Trail Finding Unit}
    (hitem : ∀ ps offset paths, Unquoted ps → .comma ∉ ps →
      Finds (f (Entry.ofPieces offset ps)) paths →
      ∃ r, IsItem NoObject levels (texts ps) r ∧ paths = pathsBelow outer r)
    {ps : List Piece} (hps : Unquoted ps) {offset : Nat} {paths : List String}
    (h : Finds (Trail.forEach f (Entry.ofGroups offset (groups ps))) paths) :
    ∃ rs, IsLevel NoObject levels (texts ps) rs ∧ paths = pathsOfAllBelow outer rs := by
  induction hlength : ps.length using Nat.strong_induction_on generalizing ps offset paths with
  | _ n ih =>
  by_cases hcomma : .comma ∈ ps
  · -- The first comma ends the first entry, and what is behind it is a level again.
    obtain ⟨g, rest, rfl, hg⟩ := List.eq_append_cons_of_mem hcomma
    obtain ⟨hunquoted, hrest⟩ := unquoted_append hps
    rw [groups_append_comma hg, Entry.ofGroups, Trail.forEach] at h
    obtain ⟨qs, below, rfl, hfirst, hbelow⟩ := finds_bind_iff.1 h
    obtain ⟨r, hr, rfl⟩ := hitem g offset qs hunquoted hg hfirst
    have hshorter : rest.length < n := by
      rw [← hlength]
      simp
      omega
    obtain ⟨rs, hrs, rfl⟩ := ih rest.length hshorter (unquoted_cons hrest).2 hbelow rfl
    rw [texts_append, texts_cons]
    exact ⟨r :: rs, .cons hr hrs, rfl⟩
  · cases ps with
    | nil =>
      obtain rfl := finds_pure_iff.1 h
      exact ⟨[], .nil, rfl⟩
    | cons p ps =>
      rw [groups_of_no_comma hcomma (by simp), Entry.ofGroups, Entry.ofGroups, Trail.forEach,
        Trail.forEach] at h
      obtain ⟨qs, below, rfl, hfirst, hbelow⟩ := finds_bind_iff.1 h
      obtain ⟨r, hr, rfl⟩ := hitem _ offset qs hps hcomma hfirst
      obtain rfl := finds_pure_iff.1 hbelow
      exact ⟨[r], .one hr, rfl⟩

/-- A text of which a strict reading finds the paths derives from the grammar. -/
theorem exists_isLevel_of_finds {text : List Char} (hquote : '"' ∉ text) {offset : Nat}
    {paths : List String}
    (h : Finds ((Policy.mk .strict maxDepth).traceLevel levels outer ⟨text, offset⟩) paths) :
    ∃ rs, IsLevel NoObject levels text rs ∧ paths = pathsOfAllBelow outer rs := by
  induction levels generalizing text outer offset paths with
  | zero =>
    rw [traceLevel] at h
    have hlevel := exists_isLevel_of_forEach (fun ps offset paths hps hcomma =>
      exists_isItem_of_finds maxDepth hps hcomma
        fun _ _ _ hlevels => absurd hlevels (Nat.lt_irrefl 0)) (unquoted_pieces hquote) h
    rwa [texts_pieces] at hlevel
  | succ levels ih =>
    rw [traceLevel] at h
    have hlevel := exists_isLevel_of_forEach (fun ps offset paths hps hcomma =>
      exists_isItem_of_finds maxDepth hps hcomma
        fun _ _ _ _ hinside => ih hinside) (unquoted_pieces hquote) h
    rwa [texts_pieces] at hlevel

/-! ## §4 What derives from the grammar is accepted -/

variable (policy : Policy)

theorem balanced_of_noObject : ∀ s q, NoObject s q → Balanced s :=
  fun _ _ hobject => hobject.elim

mutual

theorem finds_of_isItem {n : Nat} {s : List Char} {r : Relation} (h : IsItem NoObject n s r)
    (outer : Option String) (offset : Nat) :
    Finds (policy.traceEntry n (policy.traceInside n) outer (Entry.ofPieces offset (pieces s)))
      (pathsBelow outer r) :=
  match h with
  | .name hname hs =>
    policy.finds_traceEntry_of_gives_none (gives_name hname hs offset _) _ outer
  | .block hname hs ht hu => by
    have hbody := ht.balanced balanced_of_noObject
    have hgives := gives_block hname hs hbody hu offset
    exact policy.finds_traceEntry_of_gives_some (hgives _) (finds_of_isBlock ht _ _)

theorem finds_of_isBlock {n : Nat} {t : List Char} {query : Option Request} {rs : List Relation}
    (h : IsBlock NoObject n t query rs) (path : String) (offset : Nat) :
    Finds (policy.traceLevel n (some path) ⟨t, offset⟩) (pathsOfAllBelow (some path) rs) :=
  match h with
  | .level ht => finds_of_isLevel ht (some path) offset

/-- A text that derives from the grammar is accepted under either mode, with the paths of the
    relations that it derives. -/
theorem finds_of_isLevel {n : Nat} {s : List Char} {rs : List Relation}
    (h : IsLevel NoObject n s rs) (outer : Option String) (offset : Nat) :
    Finds (policy.traceLevel n outer ⟨s, offset⟩) (pathsOfAllBelow outer rs) := by
  rw [traceLevel_eq]
  match h with
  | .nil =>
    rw [entries_nil]
    exact finds_pure
  | .one hs =>
    rw [(hs.isEntryText balanced_of_noObject).entries]
    exact (finds_of_isItem hs outer offset).bind finds_pure
  | .cons hs ht =>
    have hrest := finds_of_isLevel ht outer
    rw [(hs.isEntryText balanced_of_noObject).entries_append]
    simp only [traceLevel_eq] at hrest
    exact (finds_of_isItem hs outer offset).bind (hrest _)

end

end Policy

/-! ## §5 Relation lists -/

/-- **A strict reading of paths accepts exactly the grammar**: without double quotes in it, a
    relation list is accepted if and only if its trimmed text, without a pair of matching braces
    around all of it, derives from the grammar with blocks nested as deep as blocks are entered; and
    it gives the paths of the relations derived. -/
theorem readPaths_strict_eq_ok_iff (maxDepth : Nat) (source : String)
    (hquote : '"' ∉ source.toList) (paths : List String) :
    (Policy.mk .strict maxDepth).readPaths source = .ok paths ↔
      ∃ text rs, Unbraced (Text.trim source.toList) text ∧ IsLevel NoObject maxDepth text rs ∧
        paths = pathsOfAll rs := by
  have hpaths (rs : List Relation) : pathsOfAllBelow none rs = pathsOfAll rs :=
    pathsOfAllBelow_eq_flatMap none rs
  rw [Policy.readPaths_eq_ok_iff]
  unfold Policy.tracePaths
  constructor
  · intro h
    have hunbraced := (outermost_text_eq_iff hquote).1 rfl
    have hquote' : '"' ∉ (outermost source.toList).text := fun hmem =>
      hquote (Text.mem_trim (hunbraced.subset hmem))
    obtain ⟨rs, hrs, rfl⟩ := Policy.exists_isLevel_of_finds maxDepth hquote' h
    exact ⟨_, rs, hunbraced, hrs, hpaths rs⟩
  · rintro ⟨text, rs, hunbraced, hrs, rfl⟩
    obtain rfl := (outermost_text_eq_iff hquote).2 hunbraced
    rw [← hpaths]
    exact Policy.finds_of_isLevel _ hrs none _

/-- A relation list in braces with blanks around names, an empty block and an extra comma. -/
def bracedList : String :=
  "\n\x7b author \x7bprofile ,posts\x7b\x7d\x7d , tags,\x7d "

/-- The list derives from the grammar with two blocks inside one another, so its paths are found. -/
theorem readPaths_strict_bracedList :
    '"' ∉ bracedList.toList ∧
      (Policy.mk .strict 2).readPaths bracedList =
        .ok ["author", "author.profile", "author.posts", "tags"] := by
  have hquote : '"' ∉ bracedList.toList := by decide
  have hprofile : IsItem NoObject 1 "profile ".toList ⟨"profile", none, []⟩ :=
    .name (by decide) ⟨[], [' '], by decide, by decide, rfl⟩
  have hposts : IsItem NoObject 1 "posts\x7b\x7d".toList ⟨"posts", none, []⟩ :=
    .block (s := "posts".toList) (u := []) (by decide) (Text.Padded.refl _) (.level .nil)
      Text.blanks_nil
  have hauthor : IsItem NoObject 2 " author \x7bprofile ,posts\x7b\x7d\x7d ".toList
      ⟨"author", none, [⟨"profile", none, []⟩, ⟨"posts", none, []⟩]⟩ :=
    .block (s := " author ".toList) (u := [' ']) (by decide)
      ⟨[' '], [' '], by decide, by decide, rfl⟩ (.level (.cons hprofile (.one hposts))) (by decide)
  have htags : IsItem NoObject 2 " tags".toList ⟨"tags", none, []⟩ :=
    .name (by decide) ⟨[' '], [], by decide, by decide, rfl⟩
  -- The outer braces match, as a search for the closing one shows.
  have hcloses : Closes 0 " author \x7bprofile ,posts\x7b\x7d\x7d , tags,".toList :=
    ((cutBlock_eq_some_nil_iff
      (s := " author \x7bprofile ,posts\x7b\x7d\x7d , tags,\x7d".toList) (by decide)).1
      (by decide)).2
  have hunbraced : Unbraced (Text.trim bracedList.toList)
      " author \x7bprofile ,posts\x7b\x7d\x7d , tags,".toList :=
    Or.inl ⟨by decide, hcloses⟩
  exact ⟨hquote, (readPaths_strict_eq_ok_iff 2 bracedList hquote _).2
    ⟨_, _, hunbraced, .cons hauthor (.cons htags .nil), by decide⟩⟩

end ListQuery.Relation
