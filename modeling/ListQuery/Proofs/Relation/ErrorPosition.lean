import ListQuery.Proofs.Relation.ForestGrammar
import ListQuery.Proofs.Relation.PathGrammar
import ListQuery.Proofs.Relation.Position
import ListQuery.Proofs.Result

/-!
# Where errors point

A strict reading ends with a problem and the position at which it was met. An error *points* at its
problem when the text from the position on shows it: a block that is not closed, too deep, or no
request begins with its brace, a brace that closes nothing is one, a missing name leaves only blanks
in front of what comes next, and a text that does not belong there is found behind blanks.

Positions are made anew on every level: by taking the braces and the blanks off the source, for
every block that is entered, behind the request at its front, and behind the comma that follows.
What carries the argument through all of them is that every level read is a level of the source
(`Span.IsLevelOf`).

## Main definitions

- `Problem.Shows`: what the text shows where a problem is met;
- `ParseError.Points`: the error points at its problem;
- `Trail.FailsOnly`: a reading fails with certain errors only.

## Main statements

- `Policy.strict_errors_point`: the errors of strict readings point at their problems.
-/

namespace ListQuery.Relation

open Text (byteLength dropBytes dropBytes_add)

/-! ## §1 Errors that point -/

/-- What the text shows from the position on at which a problem is met. -/
def Problem.Shows : Problem → List Char → Prop
  | .unclosedBlock, s | .tooDeep _, s | .invalidRequest _, s => s.head? = some '{'
  | .unmatchedClose, s => s.head? = some '}'
  | .emptyName, s => ∀ c ∈ (Text.trimStart s).head?, c = ',' ∨ c = '{' ∨ c = '}'
  | .unexpectedText text, s => text ≠ "" ∧ text.toList <+: Text.trimStart s

/-- The position of the error is a boundary between characters with some text behind it, and that
    text shows the problem. -/
def ParseError.Points (source : List Char) (e : ParseError) : Prop :=
  ∃ rest, dropBytes e.offset source = some rest ∧ rest ≠ [] ∧ e.problem.Shows rest

variable {source : List Char}

/-- A problem of a block points at the brace that opens it. -/
theorem points_of_brace {problem : Problem} {offset : Nat} {rest : List Char}
    (h : dropBytes offset source = some ('{' :: rest)) (hshows : problem.Shows ('{' :: rest)) :
    ParseError.Points source ⟨problem, offset⟩ :=
  ⟨_, h, List.cons_ne_nil _ _, hshows⟩

/-- A text that does not belong there is pointed at from in front of its blanks. -/
theorem points_unexpectedText {offset : Nat} {s rest : List Char}
    (h : dropBytes offset source = some (s ++ rest)) (hne : Text.trim s ≠ []) :
    ParseError.Points source ⟨.unexpectedText (String.ofList (Text.trim s)), offset⟩ := by
  have hstart : Text.trimStart s ≠ [] := fun hnil => hne (by rw [Text.trim, hnil]; rfl)
  have hs : s ++ rest ≠ [] := fun hnil =>
    hstart (by rw [(List.append_eq_nil_iff.1 hnil).1]; rfl)
  refine ⟨s ++ rest, h, hs, by simpa using hne, ?_⟩
  rw [String.toList_ofList, Text.trimStart_append hstart]
  exact (Text.trimEnd_prefix_self _).trans (List.prefix_append _ _)

/-- A name that is empty without its closing braces has only blanks in front of the first one of
    them, or of what comes next. -/
theorem head?_trimStart_nameless {s rest : List Char} (h : Text.Blanks (s.filter (· ≠ '}'))) :
    ∀ c ∈ (Text.trimStart (s ++ rest)).head?, c = '}' ∨ c ∈ (Text.trimStart rest).head? := by
  induction s with
  | nil => exact fun c hc => Or.inr hc
  | cons d s ih =>
    by_cases hd : d = '}'
    · subst hd
      simp [Text.trimStart, Text.isBlank]
    · rw [List.filter_cons_of_pos (by simpa using hd)] at h
      have hblank : Text.isBlank d = true := h d List.mem_cons_self
      have hskip : Text.trimStart (d :: (s ++ rest)) = Text.trimStart (s ++ rest) :=
        List.dropWhile_cons_of_pos hblank
      rw [List.cons_append, hskip]
      exact ih fun c hc => h c (List.mem_cons_of_mem _ hc)

/-! ## §2 Readings that fail -/

namespace Trail

variable {ω ω' α β : Type} {P : ParseError → Prop}

/-- If the reading fails, then with an error of which `P` holds. -/
def FailsOnly (P : ParseError → Prop) (t : Trail ω α) : Prop :=
  ∀ e, t.result = .error e → P e

theorem failsOnly_pure (a : α) : FailsOnly P (Pure.pure a : Trail ω α) :=
  nofun

theorem FailsOnly.bind {t : Trail ω α} {next : α → Trail ω β} (h : FailsOnly P t)
    (hnext : ∀ a, t.result = .ok a → FailsOnly P (next a)) : FailsOnly P (t >>= next) := by
  obtain ⟨log, result⟩ := t
  cases result with
  | error e =>
    rintro e' ⟨⟩
    exact h e rfl
  | ok a => exact hnext a rfl

theorem FailsOnly.mapLog {t : Trail ω α} (h : FailsOnly P t) (f : ω → ω') :
    FailsOnly P (t.mapLog f) :=
  h

theorem failsOnly_gather {f : α → Trail ω (Option β)} {as : List α}
    (h : ∀ a ∈ as, FailsOnly P (f a)) : FailsOnly P (gather f as) := by
  induction as with
  | nil => exact failsOnly_pure []
  | cons a as ih =>
    have hrest := ih fun b hb => h b (List.mem_cons_of_mem _ hb)
    exact (h a List.mem_cons_self).bind fun _ _ => hrest.bind fun _ _ => failsOnly_pure _

theorem failsOnly_forEach {f : α → Trail ω Unit} {as : List α}
    (h : ∀ a ∈ as, FailsOnly P (f a)) : FailsOnly P (forEach f as) := by
  induction as with
  | nil => exact failsOnly_pure ()
  | cons a as ih =>
    have hrest := ih fun b hb => h b (List.mem_cons_of_mem _ hb)
    exact (h a List.mem_cons_self).bind fun _ _ => hrest

end Trail

open Trail (FailsOnly failsOnly_pure failsOnly_gather failsOnly_forEach)

namespace Policy

variable (maxDepth : Nat)

theorem failsOnly_meet {P : ParseError → Prop} {problem : Problem} {offset : Nat} {effect : Effect}
    (h : P ⟨problem, offset⟩) :
    FailsOnly P ((Policy.mk .strict maxDepth).meet problem offset effect) := by
  rintro e ⟨⟩
  exact h

/-! ## §3 Entries -/

theorem failsOnly_checkBlock {e : Entry} (he : e.Within source) {b : Block} (hb : e.block = some b) :
    FailsOnly (ParseError.Points source) ((Policy.mk .strict maxDepth).checkBlock e b) := by
  have htrailing : FailsOnly (ParseError.Points source)
      (if !(Text.trim e.trailing.text).isEmpty then (Policy.mk .strict maxDepth).meet
        (.unexpectedText (String.ofList (Text.trim e.trailing.text))) e.trailing.offset
      else pure ()) := by
    split
    · rename_i hne
      obtain ⟨rest, hrest⟩ := he.trailing
      exact failsOnly_meet maxDepth (points_unexpectedText hrest (by simpa using hne))
    · exact failsOnly_pure ()
  unfold checkBlock
  split
  · obtain ⟨rest, hrest, -⟩ := he.block b hb
    have hpoints : ParseError.Points source ⟨.unclosedBlock, b.openAt⟩ :=
      points_of_brace hrest rfl
    exact (failsOnly_meet maxDepth hpoints).bind fun _ _ => htrailing
  · exact htrailing

theorem failsOnly_enterBlock {e : Entry} (he : e.Within source) (levels : Nat) (relation : String)
    {b : Block} (hb : e.block = some b) :
    FailsOnly (ParseError.Points source)
      ((Policy.mk .strict maxDepth).enterBlock levels relation b) := by
  unfold enterBlock
  split
  · obtain ⟨rest, hrest, -⟩ := he.block b hb
    have hpoints : ParseError.Points source ⟨.tooDeep maxDepth, b.openAt⟩ :=
      points_of_brace hrest rfl
    exact (failsOnly_meet maxDepth hpoints).bind fun _ _ => failsOnly_pure _
  · exact failsOnly_pure _

/-- What a strict reading finds wrong with an entry is pointed at. -/
theorem failsOnly_accept {e : Entry} (he : e.Within source) (levels : Nat) :
    FailsOnly (ParseError.Points source) ((Policy.mk .strict maxDepth).accept levels e) := by
  cases hstray : e.strayClose with
  | some offset =>
    obtain ⟨rest, hrest⟩ := he.strayClose offset hstray
    rw [accept_of_strayClose _ levels hstray]
    -- A strict reading ends there, so that nothing else of the entry is looked at.
    have hmeet : FailsOnly (ParseError.Points source)
        ((Policy.mk .strict maxDepth).meet .unmatchedClose offset) :=
      failsOnly_meet maxDepth ⟨_, hrest, List.cons_ne_nil _ _, rfl⟩
    exact hmeet.bind nofun
  | none =>
    by_cases hname : e.relationName = []
    · rw [accept_nameless _ levels hname hstray]
      obtain ⟨rest, hrest, hne, hhead⟩ := he.name
      have hblanks := Text.trim_eq_nil_iff.1 hname
      refine (failsOnly_meet maxDepth ⟨_, hrest, hne, fun c hc => ?_⟩).bind fun _ _ =>
        failsOnly_pure _
      rcases head?_trimStart_nameless hblanks c hc with rfl | hc
      · exact Or.inr (Or.inr rfl)
      · exact hhead c hc
    · rw [accept_named _ levels hname hstray]
      cases hb : e.block with
      | none => exact failsOnly_pure _
      | some b =>
        exact (failsOnly_checkBlock maxDepth he hb).bind fun _ _ =>
          (failsOnly_enterBlock maxDepth he levels _ hb).bind fun _ _ => failsOnly_pure _

/-- The block of an entry that a strict reading accepts is closed. -/
theorem closesIn_of_accept_strict {e : Entry} (he : e.Within source) {levels : Nat} {name : String}
    {b : Block} (h : ((Policy.mk .strict maxDepth).accept levels e).result =
      .ok (some ⟨name, some b⟩)) : b.ClosesIn source := by
  obtain ⟨hsound, haccepted⟩ := (accept_strict_eq_ok_iff maxDepth).1 h
  have hb : e.block = some b := (congrArg Accepted.block (Option.some.inj haccepted)).symm
  obtain ⟨hclosed, -, -⟩ := hsound.block b hb
  obtain ⟨rest, hrest, hhead⟩ := he.block b hb
  obtain ⟨rest, rfl⟩ := List.head?_eq_some_iff.1 (hhead hclosed)
  exact ⟨rest, hrest⟩

/-! ## §4 Blocks -/

theorem failsOnly_readRequest (relation : String) {object : Span} {rest : List Char}
    (h : dropBytes object.offset source = some ('{' :: rest)) :
    FailsOnly (ParseError.Points source)
      ((Policy.mk .strict maxDepth).readRequest relation object) := by
  unfold readRequest
  split
  · exact failsOnly_pure _
  · rename_i error _
    have hpoints : ParseError.Points source ⟨.invalidRequest error, object.offset⟩ :=
      points_of_brace h rfl
    exact (failsOnly_meet maxDepth hpoints).bind fun _ _ => failsOnly_pure _

theorem failsOnly_levelBehind {after : Span} {rest : List Char}
    (h : dropBytes after.offset source = some (after.text ++ rest)) :
    FailsOnly (ParseError.Points source) ((Policy.mk .strict maxDepth).levelBehind after) := by
  have hstart : Text.trimStart after.trimStart.text = after.trimStart.text :=
    Text.trimStart_eq_self (Text.head?_trimStart after.text)
  have htrim : Text.trim after.trimStart.text = Text.trimEnd after.trimStart.text := by
    rw [Text.trim, hstart]
  unfold levelBehind
  dsimp only
  split
  · exact failsOnly_pure _
  · rename_i c s hs
    split
    · exact failsOnly_pure _
    · have hne : Text.trim after.trimStart.text ≠ [] := by
        intro hnil
        have hblanks := Text.trimStart_eq_nil_iff.2 (Text.trim_eq_nil_iff.1 hnil)
        rw [hstart, hs] at hblanks
        cases hblanks
      have hpoints := points_unexpectedText (dropBytes_trimStart h) hne
      rw [htrim] at hpoints
      exact (failsOnly_meet maxDepth hpoints).bind fun _ _ => failsOnly_pure _

/-- The level behind a request is a level if the request stands in a closed block. -/
theorem isLevelOf_of_levelBehind (policy : Policy) {after inside : Span} {rest : List Char}
    (h : dropBytes after.offset source = some (after.text ++ '}' :: rest))
    (hinside : (policy.levelBehind after).result = .ok (some inside)) :
    inside.IsLevelOf source := by
  have htrim := dropBytes_trimStart h
  unfold levelBehind at hinside
  dsimp only at hinside
  split at hinside
  · cases hinside
  · rename_i c s hs
    split at hinside
    · rename_i hc
      obtain rfl := Option.some.inj (Except.ok.inj hinside)
      rw [hs, hc] at htrim
      exact isLevelOf_of_close (dropBytes_add (s := [',']) htrim)
    · obtain ⟨-, -, hinside⟩ := Trail.result_bind_eq_ok_iff.1 hinside
      obtain rfl := Option.some.inj (Except.ok.inj hinside)
      exact isLevelOf_of_close htrim

/-- The object at the front of a closed block, and what stands behind it. -/
theorem exists_object {b : Block} (hb : b.ClosesIn source) {s body behind : List Char}
    (hfront : b.content.trimStart.text = '{' :: s) (hcut : cutBlock s = some (body, behind)) :
    ∃ rest, dropBytes b.content.trimStart.offset source =
      some (('{' :: body ++ ['}']) ++ (behind ++ '}' :: rest)) := by
  obtain ⟨rest, hrest⟩ := hb
  have hcontent : dropBytes b.content.offset source = some (b.content.text ++ '}' :: rest) :=
    dropBytes_add (s := ['{']) hrest
  have htrim := dropBytes_trimStart hcontent
  rw [hfront, closing_eq_append hcut] at htrim
  exact ⟨rest, by simpa using htrim⟩

/-- What a strict reading finds wrong at the front of a closed block is pointed at. -/
theorem failsOnly_splitBlock (relation : String) {b : Block} (hb : b.ClosesIn source) :
    FailsOnly (ParseError.Points source) ((Policy.mk .strict maxDepth).splitBlock relation b) := by
  obtain ⟨rest, hrest, -⟩ := hb.isLevelOf_content
  have hfront := dropBytes_trimStart hrest
  unfold splitBlock
  dsimp only
  split
  · rename_i s hs
    rw [hs] at hfront
    split
    · have hpoints : ParseError.Points source ⟨.unclosedBlock, b.content.trimStart.offset⟩ :=
        points_of_brace hfront rfl
      exact (failsOnly_meet maxDepth hpoints).bind fun _ _ => failsOnly_pure _
    · rename_i body behind hcut
      obtain ⟨rest, hobject⟩ := exists_object hb hs hcut
      refine FailsOnly.bind (failsOnly_readRequest maxDepth relation hfront) fun _ _ =>
        FailsOnly.bind ?_ fun _ _ => failsOnly_pure _
      exact failsOnly_levelBehind maxDepth (dropBytes_add hobject)
  · exact failsOnly_pure _

/-- What is read inside a closed block is a level. -/
theorem isLevelOf_of_splitBlock (policy : Policy) {relation : String} {b : Block}
    (hb : b.ClosesIn source) {query : Option Request} {inside : Span}
    (h : (policy.splitBlock relation b).result = .ok ⟨query, some inside⟩) :
    inside.IsLevelOf source := by
  unfold splitBlock at h
  dsimp only at h
  split at h
  · rename_i s hs
    split at h
    · obtain ⟨-, -, h⟩ := Trail.result_bind_eq_ok_iff.1 h
      cases h
    · rename_i body behind hcut
      obtain ⟨rest, hobject⟩ := exists_object hb hs hcut
      obtain ⟨_, -, h⟩ := Trail.result_bind_eq_ok_iff.1 h
      obtain ⟨children, hchildren, h⟩ := Trail.result_bind_eq_ok_iff.1 h
      obtain rfl : children = some inside := congrArg BlockParts.children (Except.ok.inj h)
      exact isLevelOf_of_levelBehind policy (dropBytes_add hobject) hchildren
  · obtain rfl : b.content = inside :=
      Option.some.inj (congrArg BlockParts.children (Except.ok.inj h))
    exact hb.isLevelOf_content

/-! ## §5 Readings -/

theorem failsOnly_readEntry (levels : Nat) {g : Span → Trail Notice (List Relation)}
    (hg : ∀ inside : Span, inside.IsLevelOf source → FailsOnly (ParseError.Points source) (g inside))
    {e : Entry} (he : e.Within source) :
    FailsOnly (ParseError.Points source) ((Policy.mk .strict maxDepth).readEntry levels g e) := by
  rw [readEntry_eq]
  refine (failsOnly_accept maxDepth he levels).bind fun accepted haccepted => ?_
  match accepted with
  | none => exact failsOnly_pure _
  | some ⟨name, none⟩ => exact failsOnly_pure _
  | some ⟨name, some b⟩ =>
    have hb := closesIn_of_accept_strict maxDepth he haccepted
    refine FailsOnly.bind ?_ fun _ _ => failsOnly_pure _
    refine (failsOnly_splitBlock maxDepth name hb).bind fun parts hparts => ?_
    obtain ⟨query, children⟩ := parts
    cases children with
    | none => exact failsOnly_pure _
    | some inside =>
      have hinside := isLevelOf_of_splitBlock _ hb hparts
      exact (hg inside hinside).bind fun _ _ => failsOnly_pure _

/-- The reading of relations fails with errors that point, on every level of the source. -/
theorem failsOnly_readLevel (levels : Nat) {level : Span} (h : level.IsLevelOf source) :
    FailsOnly (ParseError.Points source) ((Policy.mk .strict maxDepth).readLevel levels level) := by
  induction levels generalizing level with
  | zero =>
    exact failsOnly_gather fun e he =>
      failsOnly_readEntry maxDepth 0 (fun _ _ => failsOnly_pure []) (h.within_of_mem he)
  | succ levels ih =>
    exact failsOnly_gather fun e he =>
      failsOnly_readEntry maxDepth _ (fun _ hinside => ih hinside) (h.within_of_mem he)

theorem failsOnly_traceEntry (levels : Nat) {g : String → Span → Trail Finding Unit}
    (hg : ∀ (path : String) (inside : Span), inside.IsLevelOf source →
      FailsOnly (ParseError.Points source) (g path inside))
    (outer : Option String) {e : Entry} (he : e.Within source) :
    FailsOnly (ParseError.Points source)
      ((Policy.mk .strict maxDepth).traceEntry levels g outer e) := by
  unfold traceEntry
  refine ((failsOnly_accept maxDepth he levels).mapLog _).bind fun accepted haccepted => ?_
  match accepted with
  | none => exact failsOnly_pure ()
  | some ⟨name, none⟩ => exact FailsOnly.bind nofun fun _ _ => failsOnly_pure ()
  | some ⟨name, some b⟩ =>
    have hb := closesIn_of_accept_strict maxDepth he haccepted
    exact FailsOnly.bind nofun fun _ _ => hg _ b.content hb.isLevelOf_content

/-- The reading of paths fails with errors that point, on every level of the source. -/
theorem failsOnly_traceLevel (levels : Nat) (outer : Option String) {level : Span}
    (h : level.IsLevelOf source) : FailsOnly (ParseError.Points source)
      ((Policy.mk .strict maxDepth).traceLevel levels outer level) := by
  induction levels generalizing outer level with
  | zero =>
    exact failsOnly_forEach fun e he =>
      failsOnly_traceEntry maxDepth 0 (fun _ _ _ => failsOnly_pure ()) outer (h.within_of_mem he)
  | succ levels ih =>
    exact failsOnly_forEach fun e he =>
      failsOnly_traceEntry maxDepth _ (fun path _ hinside => ih (some path) hinside) outer
        (h.within_of_mem he)

/-! ## §6 Relation lists -/

theorem tracePaths_of_readPaths (policy : Policy) {source : String} {e : ParseError}
    (h : policy.readPaths source = .error e) : (policy.tracePaths source).result = .error e := by
  unfold readPaths at h
  dsimp only at h
  generalize (policy.tracePaths source).result = result at h ⊢
  cases result with
  | error e' => exact congrArg _ (Except.error.inj h)
  | ok u => cases h

/-- **Strict errors point at their problems.** For every relation list and every depth, the error
    with which a strict reading of its relations or of its paths ends has the position of a
    character of the list, and the list shows the problem from there on. -/
theorem strict_errors_point (maxDepth : Nat) (source : String) (e : ParseError)
    (h : (Policy.mk .strict maxDepth).readForest source = .error e ∨
      (Policy.mk .strict maxDepth).readPaths source = .error e) :
    e.Points source.toList := by
  have hlevel := isLevelOf_outermost source.toList
  rcases h with h | h
  · exact failsOnly_readLevel maxDepth maxDepth hlevel e h
  · exact failsOnly_traceLevel maxDepth maxDepth none hlevel e (tracePaths_of_readPaths _ h)

end Policy

/-- A relation list whose problems stand on an inner level, behind a request and blanks. -/
def misplacedList : String :=
  "\x7b posts \x7b \x7b\"limit\": 5\x7d , author \x7bprofile\x7d  x , tags\x7d \x7d"

/-- The text behind the inner block ends the reading of relations, and the object, as an entry
    without a name, that of paths. Either error points at its problem. -/
theorem strict_errors_point_misplacedList :
    (Policy.mk .strict 2).readForest misplacedList = .error ⟨.unexpectedText "x", 41⟩ ∧
      ParseError.Points misplacedList.toList ⟨.unexpectedText "x", 41⟩ ∧
      (Policy.mk .strict 2).readPaths misplacedList = .error ⟨.emptyName, 9⟩ ∧
      ParseError.Points misplacedList.toList ⟨.emptyName, 9⟩ := by
  have hforest : (Policy.mk .strict 2).readForest misplacedList =
      .error ⟨.unexpectedText "x", 41⟩ := error?_eq_some.1 (by decide +kernel)
  have hpaths : (Policy.mk .strict 2).readPaths misplacedList = .error ⟨.emptyName, 9⟩ :=
    error?_eq_some.1 (by decide +kernel)
  exact ⟨hforest, Policy.strict_errors_point 2 misplacedList _ (Or.inl hforest),
    hpaths, Policy.strict_errors_point 2 misplacedList _ (Or.inr hpaths)⟩

end ListQuery.Relation
