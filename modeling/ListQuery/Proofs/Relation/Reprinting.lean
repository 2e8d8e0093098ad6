import ListQuery.Proofs.Relation.FirstProblem
import ListQuery.Proofs.Relation.RoundTrip

/-!
# Printing what was read

A reading gives relations whose names are the trimmed texts between commas and braces, and whose
blocks nest no deeper than blocks are entered. So they can be printed and read back, with two
provisos. A lenient reading takes double quotes into a name, where they are characters like any
other; but a search for the brace that closes a block takes them for the ends of a string. And the
request of a relation has to be read back from its own text.

## Main definitions

- `walk`: a relation and all those inside it.

## Main statements

- `printable_of_walkAll`: what makes relations printable, over their walk;
- `isName_relationName`: the name of an entry can stand in a relation list, quotes apart;
- `Policy.of_readLevel_eq_ok`: the depth and the names of what is read;
- `readForest_listText_of_readForest`: what a lenient reading gives is read back.
-/

namespace ListQuery.Relation

/-! ## §1 Relations and those inside them -/

mutual

/-- A relation and all those inside it. -/
def walk : Relation → List Relation
  | ⟨name, query, children⟩ => ⟨name, query, children⟩ :: walkAll children

def walkAll : List Relation → List Relation
  | [] => []
  | r :: rest => r.walk ++ walkAll rest

end

theorem walkAll_eq_flatMap (rs : List Relation) : walkAll rs = rs.flatMap walk := by
  induction rs with
  | nil => rfl
  | cons r rest ih => rw [walkAll, ih, List.flatMap_cons]

theorem mem_walkAll {rs : List Relation} {s : Relation} :
    s ∈ walkAll rs ↔ ∃ r ∈ rs, s = r ∨ s ∈ walkAll r.children := by
  rw [walkAll_eq_flatMap, List.mem_flatMap]
  refine exists_congr fun r => and_congr_right fun _ => ?_
  obtain ⟨name, query, children⟩ := r
  exact List.mem_cons

/-- What is printed of a relation, and of none of those inside it, can be read back. -/
structure Rereads (r : Relation) : Prop where
  isName : IsName r.name
  request : ∀ q ∈ r.query, Request.ofJson q.document.text = .ok q

mutual

theorem printable_of_walk : (r : Relation) → (∀ s ∈ r.walk, s.Rereads) → Printable r
  | ⟨_, _, children⟩, h =>
    have hroot := h _ List.mem_cons_self
    ⟨hroot.isName, hroot.request,
      printable_of_walkAll children fun s hs => h s (List.mem_cons_of_mem _ hs)⟩

theorem printable_of_walkAll :
    (rs : List Relation) → (∀ s ∈ walkAll rs, s.Rereads) → ∀ r ∈ rs, Printable r
  | [], _ => nofun
  | r :: rest, h => List.forall_mem_cons.2
    ⟨printable_of_walk r fun s hs => h s (List.mem_append_left _ hs),
      printable_of_walkAll rest fun s hs => h s (List.mem_append_right _ hs)⟩

end

/-! ## §2 Names -/

theorem exists_ofPieces_of_mem_ofGroups {offset : Nat} {gs : List (List Piece)} {e : Entry}
    (h : e ∈ Entry.ofGroups offset gs) : ∃ g ∈ gs, ∃ start, e = Entry.ofPieces start g := by
  induction gs generalizing offset with
  | nil => exact absurd h List.not_mem_nil
  | cons g gs ih =>
    rcases List.mem_cons.1 h with rfl | h
    · exact ⟨g, List.mem_cons_self, offset, rfl⟩
    · obtain ⟨g', hg', start, rfl⟩ := ih h
      exact ⟨g', List.mem_cons_of_mem _ hg', start, rfl⟩

/-- The name of an entry holds no comma and no opening brace. -/
theorem plain_of_mem_name {level : Span} {e : Entry} (he : e ∈ level.entries) {c : Char}
    (hc : c ∈ e.name.text) : c ≠ ',' ∧ c ≠ '{' := by
  obtain ⟨g, hg, start, rfl⟩ := exists_ofPieces_of_mem_ofGroups he
  have hmem : Piece.char c ∈ g := by
    obtain ⟨s, rest, rfl, hrest⟩ := exists_eq_map_char_append g
    have hname : (Entry.ofPieces start (s.map .char ++ rest)).name.text = s := by
      cases rest with
      | nil => rw [List.append_nil, ofPieces_chars]
      | cons p ps => rw [ofPieces_chars_cons start s (hrest p rfl)]
    rw [hname] at hc
    exact List.mem_append_left _ (List.mem_map_of_mem hc)
  exact char_of_mem_pieces (mem_of_mem_groups hg hmem)

/-- The name of an entry can stand in a relation list, quotes apart. -/
theorem isName_relationName {level : Span} {e : Entry} (he : e ∈ level.entries)
    (hne : e.relationName ≠ []) (hquote : '"' ∉ e.relationName) :
    IsName (String.ofList e.relationName) := by
  refine ⟨by simpa using hne, ?_, ?_, ?_⟩ <;> rw [String.toList_ofList]
  · exact Text.head?_trim _
  · exact Text.getLast?_trim _
  · intro c hc
    obtain ⟨hmem, hclose⟩ := List.mem_filter.1 (Text.mem_trim hc)
    obtain ⟨hcomma, hopen⟩ := plain_of_mem_name he hmem
    exact ⟨hopen, of_decide_eq_true hclose, hcomma, fun heq => hquote (heq ▸ hc)⟩

/-! ## §3 Readings -/

theorem exists_of_mem_gather {f : Entry → Trail Notice (Option Relation)} {es : List Entry}
    {rs : List Relation} (h : (Trail.gather f es).result = .ok rs) {r : Relation} (hr : r ∈ rs) :
    ∃ e ∈ es, (f e).result = .ok (some r) := by
  induction es generalizing rs with
  | nil =>
    obtain rfl := Except.ok.inj h
    exact absurd hr List.not_mem_nil
  | cons e es ih =>
    obtain ⟨found, hfound, h⟩ := Trail.result_bind_eq_ok_iff.1 h
    obtain ⟨rest, hrest, h⟩ := Trail.result_bind_eq_ok_iff.1 h
    obtain rfl := Except.ok.inj h
    rcases List.mem_append.1 hr with hr | hr
    · rw [Option.mem_toList.1 hr] at hfound
      exact ⟨e, List.mem_cons_self, hfound⟩
    · obtain ⟨e', he', hread⟩ := ih hrest hr
      exact ⟨e', List.mem_cons_of_mem _ he', hread⟩

namespace Policy

variable (policy : Policy)

/-- A relation is read from an entry that is accepted with its name. The relations inside it are
    read inside its block. -/
theorem of_readEntry_eq_ok {levels : Nat} {g : Span → Trail Notice (List Relation)} {e : Entry}
    {r : Relation} (h : (policy.readEntry levels g e).result = .ok (some r)) :
    e.relationName ≠ [] ∧ r.name = String.ofList e.relationName ∧
      ((r.query = none ∧ r.children = []) ∨ 0 < levels ∧
        (r.children = [] ∨ ∃ inside, (g inside).result = .ok r.children)) := by
  rw [readEntry_eq] at h
  obtain ⟨accepted, haccept, h⟩ := Trail.result_bind_eq_ok_iff.1 h
  match accepted with
  | none => cases h
  | some ⟨name, none⟩ =>
    obtain ⟨hne, rfl, -⟩ := policy.of_accept_eq_ok haccept
    obtain ⟨⟩ := h
    exact ⟨hne, rfl, Or.inl ⟨rfl, rfl⟩⟩
  | some ⟨name, some b⟩ =>
    obtain ⟨hne, rfl, hblock⟩ := policy.of_accept_eq_ok haccept
    obtain ⟨⟨query, children⟩, hread, h⟩ := Trail.result_bind_eq_ok_iff.1 h
    obtain ⟨⟩ := h
    refine ⟨hne, rfl, Or.inr ⟨(hblock b rfl).2, ?_⟩⟩
    obtain ⟨⟨query, level⟩, -, hread⟩ := Trail.result_bind_eq_ok_iff.1 hread
    cases level with
    | none =>
      obtain ⟨⟩ := hread
      exact Or.inl rfl
    | some inside =>
      obtain ⟨rs, hrs, hread⟩ := Trail.result_bind_eq_ok_iff.1 hread
      obtain ⟨⟩ := hread
      exact Or.inr ⟨inside, hrs⟩

/-- A relation whose name holds no quote has a name that can stand in a relation list. -/
def Nameable (r : Relation) : Prop :=
  '"' ∉ r.name.toList → IsName r.name

/-- The blocks of a relation nest at most one level deeper than those inside it. -/
theorem height_le (r : Relation) : r.height ≤ heightAll r.children + 1 := by
  obtain ⟨name, query, children⟩ := r
  rcases leaf_or_block query children with ⟨rfl, rfl⟩ | hblock
  · exact Nat.zero_le _
  · exact Nat.le_of_eq (height_block name hblock)

/-- What holds of the relations read inside blocks holds one level further out. -/
theorem of_gather_eq_ok {levels : Nat} {g : Span → Trail Notice (List Relation)}
    (hg : ∀ inside rs, 0 < levels → (g inside).result = .ok rs →
      heightAll rs ≤ levels - 1 ∧ ∀ s ∈ walkAll rs, Nameable s)
    {level : Span} {rs : List Relation}
    (h : (Trail.gather (policy.readEntry levels g) level.entries).result = .ok rs) :
    heightAll rs ≤ levels ∧ ∀ s ∈ walkAll rs, Nameable s := by
  have hread : ∀ r ∈ rs, r.height ≤ levels ∧ Nameable r ∧ ∀ s ∈ walkAll r.children, Nameable s := by
    intro r hr
    obtain ⟨e, he, hread⟩ := exists_of_mem_gather h hr
    obtain ⟨hne, hname, hinside⟩ := policy.of_readEntry_eq_ok hread
    have hnameable : Nameable r := by
      unfold Nameable
      rw [hname, String.toList_ofList]
      exact isName_relationName he hne
    rcases hinside with ⟨hquery, hchildren⟩ | ⟨hlevels, hchildren⟩
    · have hheight : r.height = 0 := by
        obtain ⟨name, query, children⟩ := r
        obtain rfl : query = none := hquery
        obtain rfl : children = [] := hchildren
        rfl
      rw [hheight, hchildren]
      exact ⟨Nat.zero_le _, hnameable, nofun⟩
    · have hbelow : heightAll r.children ≤ levels - 1 ∧ ∀ s ∈ walkAll r.children, Nameable s := by
        rcases hchildren with hnone | ⟨inside, hread⟩
        · rw [hnone]
          exact ⟨Nat.zero_le _, nofun⟩
        · exact hg inside _ hlevels hread
      have hheight := height_le r
      exact ⟨by omega, hnameable, hbelow.2⟩
  refine ⟨heightAll_le_iff.2 fun r hr => (hread r hr).1, fun s hs => ?_⟩
  obtain ⟨r, hr, rfl | hs⟩ := mem_walkAll.1 hs
  · exact (hread s hr).2.1
  · exact (hread r hr).2.2 s hs

/-- What is read on a level has blocks no deeper than levels were left, and its names can stand in a
    relation list, quotes apart. -/
theorem of_readLevel_eq_ok {levels : Nat} {level : Span} {rs : List Relation}
    (h : (policy.readLevel levels level).result = .ok rs) :
    heightAll rs ≤ levels ∧ ∀ s ∈ walkAll rs, Nameable s := by
  induction levels generalizing level rs with
  | zero => exact policy.of_gather_eq_ok (fun _ _ hlevels => absurd hlevels (Nat.lt_irrefl 0)) h
  | succ levels ih => exact policy.of_gather_eq_ok (fun _ _ _ hread => ih hread) h

end Policy

/-! ## §4 Relation lists -/

/-- **What a lenient reading gives can be printed and read back**, whatever text it was read from:
    it gives relations, and provided that no name among them holds a double quote and that every
    request among them is read back from its own text, their text is read as these relations. -/
theorem readForest_listText_of_readForest (maxDepth : Nat) (source : String) :
    ∃ rs, (Policy.mk .lenient maxDepth).readForest source = .ok rs ∧
      ((∀ r ∈ walkAll rs, '"' ∉ r.name.toList ∧
          ∀ q ∈ r.query, Request.ofJson q.document.text = .ok q) →
        (Policy.mk .lenient maxDepth).readForest (listText rs) = .ok rs) := by
  obtain ⟨rs, hrs⟩ := (Policy.follows_readLevel maxDepth maxDepth (outermost source.toList)).tolerant
  refine ⟨rs, hrs, fun h => ?_⟩
  obtain ⟨hheight, hnames⟩ := Policy.of_readLevel_eq_ok _ hrs
  have hprintable : ∀ r ∈ rs, Printable r := printable_of_walkAll rs fun r hr =>
    ⟨hnames r hr (h r hr).1, (h r hr).2⟩
  unfold Policy.readForest Policy.traceForest
  rw [toList_listText hprintable, outermost_levelText hprintable,
    Policy.readLevel_levelText _ hprintable hheight]
  rfl

/-- A malformed list with a request in a block, a block inside this one, text behind the outer one,
    and a closing brace too many. -/
def requestedList : String :=
  "posts \x7b \x7b\"where\":\x7b\"open\":true\x7d,\"limit\":5\x7d, " ++
    "author \x7b profile,, \x7d\x7d x, tags \x7d"

/-- What is read of it. -/
def requestedForest : List Relation :=
  [⟨"posts", some { filter := Filter.withField {} "open" (.equalTo (.bool true)), limit := some 5 },
      [⟨"author", none, [⟨"profile", none, []⟩]⟩]⟩,
    ⟨"tags", none, []⟩]

theorem readForest_listText_requestedList :
    Policy.lenient.readForest requestedList = .ok requestedForest ∧
      (∀ r ∈ walkAll requestedForest, '"' ∉ r.name.toList ∧
        ∀ q ∈ r.query, Request.ofJson q.document.text = .ok q) ∧
      Policy.lenient.readForest (listText requestedForest) = .ok requestedForest := by
  have hread : Policy.lenient.readForest requestedList = .ok requestedForest :=
    toOption_eq_some.1 (by decide +kernel)
  have hnames : ∀ r ∈ walkAll requestedForest, '"' ∉ r.name.toList := by decide +kernel
  have hrequests : ∀ r ∈ walkAll requestedForest, ∀ q ∈ r.query,
      (Request.ofJson q.document.text).toOption = some q := by
    decide +kernel
  have hproviso : ∀ r ∈ walkAll requestedForest, '"' ∉ r.name.toList ∧
      ∀ q ∈ r.query, Request.ofJson q.document.text = .ok q := fun r hr =>
    ⟨hnames r hr, fun q hq => toOption_eq_some.1 (hrequests r hr q hq)⟩
  obtain ⟨rs, hrs, hback⟩ := readForest_listText_of_readForest 32 requestedList
  obtain rfl : requestedForest = rs := Except.ok.inj (hread.symm.trans hrs)
  exact ⟨hread, hproviso, hback hproviso⟩

/-- A list whose block holds double quotes. They make a string where the end of the block is searched
    for, with a brace in it, and are characters where the names in the block are read. -/
def quotedNames : String :=
  "a\x7bb\",\x7b\"\x7d,c"

/-- The name that is read has one of the quotes. Printed, it takes the end of its block for a part of
    a string, and the relation behind the block is read back as one inside it. -/
theorem readForest_quotedNames :
    ∃ rs, Policy.lenient.readForest quotedNames = .ok rs ∧
      Policy.lenient.readForest (listText rs) ≠ .ok rs := by
  have hread : Policy.lenient.readForest quotedNames =
      .ok [⟨"a", none, [⟨"b\"", none, []⟩]⟩, ⟨"c", none, []⟩] :=
    toOption_eq_some.1 (by decide +kernel)
  have hreread :
      Policy.lenient.readForest (listText [⟨"a", none, [⟨"b\"", none, []⟩]⟩, ⟨"c", none, []⟩]) =
        .ok [⟨"a", none, [⟨"b\"", none, []⟩, ⟨"c", none, []⟩]⟩] :=
    toOption_eq_some.1 (by decide +kernel)
  refine ⟨_, hread, ?_⟩
  rw [hreread]
  exact fun h => absurd (Except.ok.inj h) (by decide)

end ListQuery.Relation
