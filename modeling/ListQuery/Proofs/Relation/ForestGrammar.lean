import ListQuery.Proofs.Json.Extent
import ListQuery.Proofs.Relation.Grammar
import ListQuery.Proofs.Relation.Outermost
import ListQuery.Relation.Forest

/-!
# Reading the grammar of relation lists

The reader of relations reads every text that derives from the grammar of relation lists, where the
objects are the JSON objects that write requests: it finds the relations that the text derives,
under either mode and without a notice.

Three searches have to agree on where things end: the one for the end of a block, the one for the
end of the object in it, and the one for the commas between items. They do since all that derives
from the grammar is balanced, the objects included (`Request.balanced_of_ofChars`).

## Main statements

- `splitBlock_of_not_open`, `splitBlock_object`: a block without and with an object;
- `readLevel_of_isLevel`: the relations of a level;
- `IsLevel.trim`: a level without the blanks around it is a level;
- `readForest_of_isLevel`: every text that derives from the grammar is read.
-/

namespace ListQuery.Relation

open Text (byteLength Blanks Padded)

/-! ## §1 Objects -/

/-- The text of a JSON object that writes a request. -/
structure WritesRequest (s : List Char) (q : Request) : Prop where
  object : ∃ body, s = '{' :: body ++ ['}']
  request : Request.ofJson (String.ofList s) = .ok q

namespace WritesRequest

variable {s : List Char} {q : Request}

theorem ofChars_eq (h : WritesRequest s q) : Request.ofChars s = .ok q := by
  have hrequest := h.request
  rwa [Request.ofJson, String.toList_ofList] at hrequest

theorem exists_balanced (h : WritesRequest s q) :
    ∃ body, Balanced body ∧ s = '{' :: body ++ ['}'] := by
  obtain ⟨body, rfl⟩ := h.object
  exact ⟨body, Request.balanced_of_ofChars h.ofChars_eq, rfl⟩

end WritesRequest

theorem balanced_of_writesRequest (s : List Char) (q : Request) (h : WritesRequest s q) :
    Balanced s := by
  obtain ⟨body, hbody, rfl⟩ := h.exists_balanced
  exact hbody.block

/-! ## §2 The start of a level -/

variable {object : List Char → Request → Prop}

theorem head?_trimStart_padded {name : String} {s : List Char} (hname : IsName name)
    (h : Padded name.toList s) (t : List Char) :
    ∀ c ∈ (Text.trimStart (s ++ t)).head?, c ≠ '{' := by
  obtain ⟨u, v, hu, -, rfl⟩ := h
  have hstart : Text.trimStart name.toList ≠ [] := by
    rw [Text.trimStart_eq_self hname.first]
    exact hname.toList_ne_nil
  rw [List.append_assoc, List.append_assoc, Text.trimStart_append_of_blanks hu,
    Text.trimStart_append hstart, Text.trimStart_eq_self hname.first]
  obtain ⟨d, s, hname'⟩ := List.exists_cons_of_ne_nil hname.toList_ne_nil
  rw [hname']
  rintro c ⟨⟩
  exact (hname.plain d (by simp [hname'])).1

theorem IsItem.head?_trimStart {n : Nat} {s : List Char} {r : Relation} (h : IsItem object n s r)
    (t : List Char) : ∀ c ∈ (Text.trimStart (s ++ t)).head?, c ≠ '{' := by
  cases h with
  | name hname hs => exact head?_trimStart_padded hname hs t
  | block hname hs ht hu =>
    rw [List.append_assoc]
    exact head?_trimStart_padded hname hs _

/-- No level begins with a brace. -/
theorem IsLevel.head?_trimStart {n : Nat} {s : List Char} {rs : List Relation}
    (h : IsLevel object n s rs) : ∀ c ∈ (Text.trimStart s).head?, c ≠ '{' := by
  cases h with
  | nil => exact nofun
  | one hs =>
    have hhead := hs.head?_trimStart []
    rwa [List.append_nil] at hhead
  | cons hs ht => exact hs.head?_trimStart _

/-! ## §3 Blocks -/

namespace Policy

variable (policy : Policy)

/-- A block without an object is a level. -/
theorem splitBlock_of_not_open (relation : String) {b : Block}
    (h : ∀ c ∈ (Text.trimStart b.body).head?, c ≠ '{') :
    policy.splitBlock relation b = pure { children := some b.content } := by
  unfold splitBlock
  dsimp only [Block.content, Span.trimStart]
  split
  · rename_i s heq
    rw [heq] at h
    exact absurd rfl (h '{' rfl)
  · rfl

/-- An object is taken off the front of its block. What follows it is nothing, or a comma and the
    level behind the object. -/
theorem splitBlock_object (relation : String) {s t : List Char} {q : Request}
    (hq : WritesRequest s q) (ht : Padded s t) (openAt : Nat) :
    policy.splitBlock relation ⟨openAt, t, true⟩ = pure { query := some q } ∧
      ∀ level, ∃ offset, policy.splitBlock relation ⟨openAt, t ++ ',' :: level, true⟩ =
        pure { query := some q, children := some ⟨level, offset⟩ } := by
  -- The object is cut off at the brace that closes it, whatever comes behind.
  have hchars := hq.ofChars_eq
  obtain ⟨body, hbody, rfl⟩ := hq.exists_balanced
  obtain ⟨u, v, hu, hv, rfl⟩ := ht
  have hread (offset : Nat) :
      policy.readRequest relation ⟨'{' :: body ++ ['}'], offset⟩ = pure (some q) := by
    unfold readRequest
    rw [hchars]
  have hfront (w : List Char) :
      Text.trimStart (u ++ ('{' :: body ++ ['}']) ++ v ++ w) =
        '{' :: (body ++ '}' :: (v ++ w)) := by
    have hopen : Text.isBlank '{' = false := by decide
    rw [List.append_assoc, List.append_assoc, Text.trimStart_append_of_blanks hu,
      Text.trimStart_eq_self (by simpa using hopen)]
    simp
  constructor
  · have hnil := hfront []
    rw [List.append_nil, List.append_nil] at hnil
    unfold splitBlock
    dsimp only [Block.content, Span.trimStart]
    simp only [hnil, cutBlock_of_balanced hbody, hread, pure_bind]
    unfold levelBehind
    simp only [Span.trimStart, Text.trimStart_eq_nil_iff.2 hv, pure_bind]
  · intro level
    have hcomma : Text.trimStart (v ++ ',' :: level) = ',' :: level := by
      rw [Text.trimStart_append_of_blanks hv]
      rfl
    unfold splitBlock
    dsimp only [Block.content, Span.trimStart]
    simp only [hfront, cutBlock_of_balanced hbody, hread, pure_bind]
    unfold levelBehind
    simp only [Span.trimStart, hcomma, if_true, pure_bind]
    exact ⟨_, rfl⟩

/-! ## §4 Relations -/

/-- The relations in a block: those on the level behind a request, or in the whole block. -/
def readBlock (g : Span → Trail Notice (List Relation)) (relation : String) (b : Block) :
    Trail Notice (Option Request × List Relation) := do
  let parts ← policy.splitBlock relation b
  match parts.children with
  | some inside => return (parts.query, ← g inside)
  | none => return (parts.query, [])

/-- The relation of an entry that is accepted. -/
def readAccepted (g : Span → Trail Notice (List Relation)) :
    Option Accepted → Trail Notice (Option Relation)
  | none => pure none
  | some ⟨name, none⟩ => pure (some { name })
  | some ⟨name, some b⟩ => do
    let (query, children) ← policy.readBlock g name b
    return some { name, query, children }

theorem readEntry_eq (levels : Nat) (g : Span → Trail Notice (List Relation)) (e : Entry) :
    policy.readEntry levels g e = policy.accept levels e >>= policy.readAccepted g := by
  unfold readEntry
  refine bind_congr fun accepted => ?_
  match accepted with
  | none => rfl
  | some ⟨name, none⟩ => rfl
  | some ⟨name, some b⟩ =>
    simp only [readAccepted, readBlock, bind_assoc]
    refine bind_congr fun parts => ?_
    obtain ⟨query, children⟩ := parts
    cases children with
    | none => rfl
    | some inside => simp only [bind_assoc, pure_bind]

/-- Read the relations within a block with so many levels left around it. -/
def readInside (policy : Policy) : (levels : Nat) → Span → Trail Notice (List Relation)
  | 0, _ => pure []
  | levels + 1, inside => policy.readLevel levels inside

theorem readLevel_eq (levels : Nat) (level : Span) :
    policy.readLevel levels level =
      Trail.gather (policy.readEntry levels (policy.readInside levels)) level.entries := by
  cases levels <;> rfl

mutual

theorem readEntry_of_isItem {n : Nat} {s : List Char} {r : Relation}
    (h : IsItem WritesRequest n s r) (offset : Nat) :
    policy.readEntry n (policy.readInside n) (Entry.ofPieces offset (pieces s)) =
      pure (some r) := by
  unfold readEntry
  match h with
  | .name hname hs => rw [policy.accept_of_gives (gives_name hname hs offset _), pure_bind]
  | .block hname hs ht hu =>
    have hbody := ht.balanced balanced_of_writesRequest
    obtain ⟨level, hsplit, hlevel⟩ := readBlock_of_isBlock ht _ _
    rw [policy.accept_of_gives (gives_block hname hs hbody hu offset _), pure_bind]
    dsimp only
    rw [hsplit, pure_bind]
    rcases hlevel with ⟨rfl, rfl⟩ | ⟨inside, rfl, hinside⟩
    · rfl
    · dsimp only [readInside]
      rw [hinside, pure_bind]

/-- A block splits into its request and a level, and the level is read. -/
theorem readBlock_of_isBlock {n : Nat} {t : List Char} {query : Option Request}
    {rs : List Relation} (h : IsBlock WritesRequest n t query rs) (relation : String)
    (openAt : Nat) :
    ∃ level, policy.splitBlock relation ⟨openAt, t, true⟩ = pure ⟨query, level⟩ ∧
      ((level = none ∧ rs = []) ∨
        ∃ inside, level = some inside ∧ policy.readLevel n inside = pure rs) := by
  match h with
  | .level ht =>
    exact ⟨_, policy.splitBlock_of_not_open relation ht.head?_trimStart,
      Or.inr ⟨_, rfl, readLevel_of_isLevel ht _⟩⟩
  | .object hq ht =>
    obtain ⟨halone, -⟩ := policy.splitBlock_object relation hq ht openAt
    exact ⟨none, halone, Or.inl ⟨rfl, rfl⟩⟩
  | .objectLevel hq ht hu =>
    obtain ⟨-, hbefore⟩ := policy.splitBlock_object relation hq ht openAt
    obtain ⟨offset, hsplit⟩ := hbefore _
    exact ⟨_, hsplit, Or.inr ⟨_, rfl, readLevel_of_isLevel hu offset⟩⟩

/-- A level that derives from the grammar is read as the relations that it derives. -/
theorem readLevel_of_isLevel {n : Nat} {s : List Char} {rs : List Relation}
    (h : IsLevel WritesRequest n s rs) (offset : Nat) :
    policy.readLevel n ⟨s, offset⟩ = pure rs := by
  rw [readLevel_eq]
  match h with
  | .nil =>
    rw [entries_nil]
    rfl
  | .one hs =>
    rw [(hs.isEntryText balanced_of_writesRequest).entries, Trail.gather,
      readEntry_of_isItem hs offset, pure_bind]
    rfl
  | .cons hs ht =>
    have hrest := readLevel_of_isLevel ht
    simp only [readLevel_eq] at hrest
    rw [(hs.isEntryText balanced_of_writesRequest).entries_append, Trail.gather,
      readEntry_of_isItem hs offset, pure_bind, hrest, pure_bind]
    rfl

end

end Policy

/-! ## §5 Levels without the blanks around them -/

namespace IsItem

variable {n : Nat} {s : List Char} {r : Relation}

theorem trimStart (h : IsItem object n s r) :
    Text.trimStart s ≠ [] ∧ IsItem object n (Text.trimStart s) r := by
  cases h with
  | name hname hs =>
    have hstart := hs.trimStart hname.toList_ne_nil hname.first
    exact ⟨hstart.ne_nil hname.toList_ne_nil, .name hname hstart⟩
  | block hname hs ht hu =>
    have hstart := hs.trimStart hname.toList_ne_nil hname.first
    rw [Text.trimStart_append (hstart.ne_nil hname.toList_ne_nil)]
    exact ⟨by simp, .block hname hstart ht hu⟩

theorem trimEnd (h : IsItem object n s r) : IsItem object n (Text.trimEnd s) r := by
  cases h with
  | name hname hs => exact .name hname (hs.trimEnd hname.toList_ne_nil hname.last)
  | @block _ name query children s t u hname hs ht hu =>
    have hclose : Text.isBlank '}' = false := by decide
    have hend : Text.trimEnd (s ++ ('{' :: t ++ '}' :: u)) = s ++ ('{' :: t ++ '}' :: []) := by
      have hsplit : s ++ ('{' :: t ++ '}' :: u) = s ++ '{' :: t ++ ['}'] ++ u := by simp
      have hlast : ∀ c ∈ (s ++ '{' :: t ++ ['}']).getLast?, Text.isBlank c = false := by
        rw [List.getLast?_concat]
        rintro c ⟨⟩
        exact hclose
      rw [hsplit, Text.trimEnd_append_of_blanks hu, Text.trimEnd_eq_self hlast]
      simp
    rw [hend]
    exact .block hname hs ht Text.blanks_nil

end IsItem

namespace IsLevel

variable {n : Nat} {s : List Char} {rs : List Relation}

theorem trimStart (h : IsLevel object n s rs) : IsLevel object n (Text.trimStart s) rs := by
  cases h with
  | nil => exact .nil
  | one hs => exact .one hs.trimStart.2
  | cons hs ht =>
    obtain ⟨hne, hstart⟩ := hs.trimStart
    rw [Text.trimStart_append hne]
    exact .cons hstart ht

theorem trimEnd (h : IsLevel object n s rs) : IsLevel object n (Text.trimEnd s) rs := by
  induction rs generalizing s with
  | nil =>
    cases h with
    | nil => exact .nil
  | cons r rs ih =>
    cases h with
    | one hs => exact .one hs.trimEnd
    | cons hs ht =>
      have hcomma : Text.isBlank ',' = false := by decide
      rw [Text.trimEnd_append (by simp [Text.trimEnd_cons hcomma]), Text.trimEnd_cons hcomma]
      exact .cons hs (ih ht)

/-- The blanks around a level belong to its names and blocks. -/
theorem trim (h : IsLevel object n s rs) : IsLevel object n (Text.trim s) rs :=
  h.trimStart.trimEnd

theorem outermost_eq (h : IsLevel object n s rs) :
    outermost s = ⟨Text.trim s, byteLength (s.takeWhile Text.isBlank)⟩ := by
  have hhead := h.trim.head?_trimStart
  rw [Text.trimStart_eq_self (Text.head?_trim s)] at hhead
  exact outermost_of_not_open hhead

end IsLevel

/-! ## §6 Relation lists -/

/-- **Every text that derives from the grammar is read**: with blocks nested no deeper than blocks
    are entered, a relation list is read as the relations that it derives, under either mode. -/
theorem readForest_of_isLevel (maxDepth : Nat) (source : String) (rs : List Relation)
    (h : IsLevel WritesRequest maxDepth source.toList rs) (mode : Mode) :
    (Policy.mk mode maxDepth).readForest source = .ok rs := by
  unfold Policy.readForest Policy.traceForest
  rw [h.outermost_eq, Policy.readLevel_of_isLevel _ h.trim]
  rfl

/-- A request with a string that holds braces, a quote and a comma, written with blanks around its
    tokens. -/
def formattedRequest : String :=
  "\x7b\"nested\" : \"x\x7b\\\"\x7d,\" ,\n\"limit\":5\x7d"

/-- A relation list with this request, blanks around names and blocks, an empty block and extra
    commas. -/
def formattedList : String :=
  "\t posts \x7b " ++ formattedRequest ++
    " , author \x7bprofile,posts\x7b\x7d\x7d ,\x7d\n, tags ,"

def formattedForest : List Relation :=
  [⟨"posts", some { nested := "x\x7b\"\x7d,", limit := some 5 },
      [⟨"author", none, [⟨"profile", none, []⟩, ⟨"posts", none, []⟩]⟩]⟩,
    ⟨"tags", none, []⟩]

/-- Neither the layout of an embedded request nor its strings disturb the reading of the list. -/
theorem readForest_formattedList :
    IsLevel WritesRequest 3 formattedList.toList formattedForest ∧
      ∀ mode, (Policy.mk mode 3).readForest formattedList = .ok formattedForest := by
  have hrequest : WritesRequest formattedRequest.toList
      { nested := "x\x7b\"\x7d,", limit := some 5 } := by
    refine ⟨⟨"\"nested\" : \"x\x7b\\\"\x7d,\" ,\n\"limit\":5".toList, by decide⟩, ?_⟩
    rw [String.ofList_toList]
    rfl
  have hprofile : IsItem WritesRequest 1 "profile".toList ⟨"profile", none, []⟩ :=
    .name (by decide) (Padded.refl _)
  have hposts : IsItem WritesRequest 1 "posts\x7b\x7d".toList ⟨"posts", none, []⟩ :=
    .block (s := "posts".toList) (u := []) (by decide) (Padded.refl _) (.level .nil)
      Text.blanks_nil
  have hauthor : IsItem WritesRequest 2 " author \x7bprofile,posts\x7b\x7d\x7d ".toList
      ⟨"author", none, [⟨"profile", none, []⟩, ⟨"posts", none, []⟩]⟩ :=
    .block (s := " author ".toList) (u := [' ']) (by decide)
      ⟨[' '], [' '], by decide, by decide, rfl⟩ (.level (.cons hprofile (.one hposts))) (by decide)
  have hobject : IsBlock WritesRequest 2
      (' ' :: formattedRequest.toList ++ ' ' :: ',' ::
        " author \x7bprofile,posts\x7b\x7d\x7d ,".toList)
      (some { nested := "x\x7b\"\x7d,", limit := some 5 })
      [⟨"author", none, [⟨"profile", none, []⟩, ⟨"posts", none, []⟩]⟩] :=
    .objectLevel (t := ' ' :: formattedRequest.toList ++ [' ']) hrequest
      ⟨[' '], [' '], by decide, by decide, rfl⟩ (.cons hauthor .nil)
  have hlist : IsItem WritesRequest 3 _ formattedForest[0] :=
    .block (s := "\t posts ".toList) (u := ['\n']) (by decide)
      ⟨['\t', ' '], [' '], by decide, by decide, rfl⟩ hobject (by decide)
  have htags : IsItem WritesRequest 3 " tags ".toList ⟨"tags", none, []⟩ :=
    .name (by decide) ⟨[' '], [' '], by decide, by decide, rfl⟩
  have hlevel : IsLevel WritesRequest 3 formattedList.toList formattedForest :=
    .cons hlist (.cons htags .nil)
  exact ⟨hlevel, fun mode => readForest_of_isLevel 3 formattedList formattedForest hlevel mode⟩

end ListQuery.Relation
