import ListQuery.Proofs.Json.Record
import ListQuery.Proofs.Relation.Depth

/-!
# What is read is well formed

Whatever a text holds, the relations and the paths read from it can be relied on: every name is
trimmed and free of the characters that mean something to a relation list, quotes apart, nothing
lies deeper than the limit, and a filter in an embedded request is one that some value is read as.
The paths are listed from the outside in, each behind the one that it goes on from.

A strict reading gives nothing that a lenient one would not give, so all of this is shown of the
relations in a text.

## Main definitions

- `LiesIn`: a relation in a list of trees, with the number of relations around it;
- `Grows`: paths that are listed from the outside in.

## Main statements

- `Request.exists_value_of_ofChars`: the filter of a request that is read;
- `mem_forestIn`: the relations in a text, one level at a time;
- `readings_well_formed`: what is read of a relation list.
-/

namespace ListQuery

/-! ## §1 Requests -/

/-- A filter that is read from a text is one that a value is read as; no filter is the empty one. -/
theorem Filter.exists_value_of_nullable {depth : Nat} {s rest : List Char} {f : Option Filter}
    (h : Json.nullable (Filter.reader depth) s = .ok (f, rest)) :
    ∃ v : Json.Value, v.Canonical ∧ Filter.ofValue v = .ok (f.getD {}) := by
  unfold Json.nullable at h
  split at h
  · obtain ⟨_, -, ⟨⟩⟩ := bind_eq_ok.1 h
    exact ⟨.object [], by decide, by rfl⟩
  · obtain ⟨⟨f, _⟩, hread, ⟨⟩⟩ := bind_eq_ok.1 h
    obtain ⟨⟨v, _⟩, hvalue, h⟩ := bind_eq_ok.1 hread
    dsimp only at h
    split at h
    · rename_i hfilter
      obtain ⟨⟩ := h
      exact ⟨v, Json.canonical_of_value hvalue, hfilter⟩
    · cases h

/-- The filter of a request that is read is one that a value is read as. -/
theorem Request.exists_value_of_ofChars {s : List Char} {q : Request}
    (h : Request.ofChars s = .ok q) :
    ∃ v : Json.Value, v.Canonical ∧ Filter.ofValue v = .ok q.filter := by
  obtain ⟨⟨q', rest⟩, hread, hrest⟩ := bind_eq_ok.1 (mapError_eq_ok.1 h)
  dsimp only at hrest
  split at hrest
  · obtain ⟨⟩ := hrest
    refine Json.record_preserves
      (fun r => ∃ v : Json.Value, v.Canonical ∧ Filter.ofValue v = .ok r.filter) ?_
      ⟨.object [], by decide, by rfl⟩ hread
    intro field hfield depth draft hdraft s draft' rest h
    unfold Request.fields at hfield
    -- Only the first field of a request is its filter.
    rcases List.mem_cons.1 hfield with rfl | hfield
    · obtain ⟨_, hread, ⟨⟩⟩ := bind_eq_ok.1 h
      exact Filter.exists_value_of_nullable hread
    · simp only [List.mem_cons, List.not_mem_nil, or_false] at hfield
      rcases hfield with rfl | rfl | rfl | rfl | rfl | rfl <;>
      · obtain ⟨_, -, ⟨⟩⟩ := bind_eq_ok.1 h
        exact hdraft
  · cases hrest

namespace Relation

/-! ## §2 Names -/

/-- A name as it is read: quotes can stand in it. -/
structure IsEntryName (name : String) : Prop where
  nonempty : name ≠ ""
  /-- The first character is not blank. -/
  first : ∀ c ∈ name.toList.head?, Text.isBlank c = false
  /-- The last character is not blank. -/
  last : ∀ c ∈ name.toList.getLast?, Text.isBlank c = false
  plain : ∀ c ∈ name.toList, c ≠ '{' ∧ c ≠ '}' ∧ c ≠ ','

theorem isEntryName_nameOf {s : List Char} (hs : ∀ c ∈ s, c ≠ ',' ∧ c ≠ '{')
    (hne : nameOf s ≠ []) : IsEntryName (String.ofList (nameOf s)) := by
  refine ⟨by simpa using hne, ?_, ?_, ?_⟩ <;> rw [String.toList_ofList]
  · exact Text.head?_trim _
  · exact Text.getLast?_trim _
  · intro c hc
    obtain ⟨hmem, hclose⟩ := List.mem_filter.1 (Text.mem_trim hc)
    obtain ⟨hcomma, hopen⟩ := hs c hmem
    exact ⟨hopen, of_decide_eq_true hclose, hcomma⟩

theorem isEntryName_of_keptAs {s : List Char} (hs : ∀ c ∈ s, c ≠ ',' ∧ c ≠ '{')
    {body : Option (List Char)} {k : Kept} (h : keptAs s body = some k) : IsEntryName k.name := by
  unfold keptAs at h
  split at h
  · cases h
  · rename_i hne
    obtain rfl := Option.some.inj h
    exact isEntryName_nameOf hs hne

/-- The names that are kept of a text. -/
theorem isEntryName_of_mem_keptIn {text : List Char} {k : Kept} (hk : k ∈ keptIn text) :
    IsEntryName k.name := by
  obtain ⟨g, hg, hkept⟩ := List.mem_filterMap.1 hk
  obtain ⟨s, rest, rfl, hrest⟩ := exists_eq_map_char_append g
  have hs : ∀ c ∈ s, c ≠ ',' ∧ c ≠ '{' := fun c hc =>
    char_of_mem_pieces (mem_of_mem_groups hg (List.mem_append_left _ (List.mem_map_of_mem hc)))
  cases rest with
  | nil =>
    rw [List.append_nil, keptOf_chars] at hkept
    exact isEntryName_of_keptAs hs hkept
  | cons p ps =>
    rw [keptOf_chars_cons s (hrest p rfl)] at hkept
    exact isEntryName_of_keptAs hs hkept

/-! ## §3 Relations -/

/-- A relation lies in a list of trees, with so many relations around it. -/
inductive LiesIn (rs : List Relation) : Nat → Relation → Prop
  | outermost {r : Relation} (hr : r ∈ rs) : LiesIn rs 0 r
  | inside {around : Nat} {outer r : Relation} (houter : LiesIn rs around outer)
      (hr : r ∈ outer.children) : LiesIn rs (around + 1) r

/-- A relation in a text has the name of an entry. With no level left it has nothing else, and
    otherwise what is inside it is one level shorter. -/
theorem mem_forestIn {split : List Char → Option Request × List Char} {levels : Nat}
    {text : List Char} {r : Relation} (hr : r ∈ forestIn split levels text) :
    IsEntryName r.name ∧ ((r.query = none ∧ r.children = []) ∨
      ∃ inner body, levels = inner + 1 ∧ r.query = (split body).1 ∧
        r.children = forestIn split inner (split body).2) := by
  cases levels with
  | zero =>
    obtain ⟨k, hk, rfl⟩ := List.mem_map.1 hr
    exact ⟨isEntryName_of_mem_keptIn hk, Or.inl ⟨rfl, rfl⟩⟩
  | succ inner =>
    obtain ⟨⟨name, body⟩, hk, rfl⟩ := List.mem_map.1 hr
    have hname : IsEntryName name := isEntryName_of_mem_keptIn hk
    cases body with
    | none => exact ⟨hname, Or.inl ⟨rfl, rfl⟩⟩
    | some body => exact ⟨hname, Or.inr ⟨inner, body, rfl, rfl, rfl⟩⟩

/-- A relation that lies in the trees of a text is one of the relations in some text, with the
    levels that are left there. -/
theorem LiesIn.exists_mem_forestIn {split : List Char → Option Request × List Char} {levels : Nat}
    {text : List Char} {around : Nat} {r : Relation}
    (h : LiesIn (forestIn split levels text) around r) :
    ∃ left inside, around + left = levels ∧ r ∈ forestIn split left inside := by
  induction h with
  | outermost hr => exact ⟨levels, text, Nat.zero_add levels, hr⟩
  | inside _ hr ih =>
    obtain ⟨left, inside, rfl, houter⟩ := ih
    obtain ⟨-, ⟨-, hnone⟩ | ⟨inner, body, rfl, -, hchildren⟩⟩ := mem_forestIn houter
    · rw [hnone] at hr
      exact absurd hr List.not_mem_nil
    · rw [hchildren] at hr
      exact ⟨inner, _, by omega, hr⟩

/-- A request in a block is one that was read. -/
theorem exists_ofChars_of_splitRequest {body : List Char} {q : Request}
    (h : (splitRequest body).1 = some q) : ∃ object, Request.ofChars object = .ok q := by
  unfold splitRequest at h
  split at h
  · split at h
    · cases h
    · exact ⟨_, toOption_eq_some.1 h⟩
  · cases h

/-! ## §4 Paths -/

/-- Paths, each with the number of steps down to it, that are listed from the outside in: a path is
    a name, or it goes on with a name from one that is listed before it. -/
inductive Grows : List (Nat × String) → Prop
  | nil : Grows []
  | outermost {found : List (Nat × String)} {name : String} (h : Grows found)
      (hname : IsEntryName name) : Grows (found ++ [(0, name)])
  | further {found : List (Nat × String)} {steps : Nat} {outer name : String} (h : Grows found)
      (houter : (steps, outer) ∈ found) (hname : IsEntryName name) :
      Grows (found ++ [(steps + 1, outer ++ "." ++ name)])

/-- Whether the path that others are to go on from is listed, if there is one. -/
def Listed (found : List (Nat × String)) : (around : Nat) → (outer : Option String) → Prop
  | around, none => around = 0
  | around, some outer => ∃ steps, around = steps + 1 ∧ (steps, outer) ∈ found

theorem Listed.append {found : List (Nat × String)} {around : Nat} {outer : Option String}
    (h : Listed found around outer) (more : List (Nat × String)) :
    Listed (found ++ more) around outer := by
  cases outer with
  | none => exact h
  | some outer =>
    obtain ⟨steps, rfl, hmem⟩ := h
    exact ⟨steps, rfl, List.mem_append_left _ hmem⟩

theorem Grows.pathBelow {found : List (Nat × String)} (h : Grows found) {around : Nat}
    {outer : Option String} (hlisted : Listed found around outer) {name : String}
    (hname : IsEntryName name) : Grows (found ++ [(around, Relation.pathBelow outer name)]) := by
  cases outer with
  | none =>
    obtain rfl : around = 0 := hlisted
    exact h.outermost hname
  | some outer =>
    obtain ⟨steps, rfl, hmem⟩ := hlisted
    exact h.further hmem hname

/-- If each of several trees can be listed behind other paths, they can all be. -/
theorem Grows.placesOfAllBelow {around : Nat} {outer : Option String} {rs : List Relation}
    (hrs : ∀ r ∈ rs, ∀ found, Grows found → Listed found around outer →
      Grows (found ++ placesBelow around outer r))
    {found : List (Nat × String)} (h : Grows found) (hlisted : Listed found around outer) :
    Grows (found ++ Relation.placesOfAllBelow around outer rs) := by
  induction rs generalizing found with
  | nil =>
    rw [Relation.placesOfAllBelow, List.append_nil]
    exact h
  | cons r rest ih =>
    rw [Relation.placesOfAllBelow, ← List.append_assoc]
    exact ih (fun r' hr' => hrs r' (List.mem_cons_of_mem _ hr'))
      (hrs r List.mem_cons_self found h hlisted) (hlisted.append _)

theorem placesBelow_eq (around : Nat) (outer : Option String) (r : Relation) :
    placesBelow around outer r =
      (around, pathBelow outer r.name) ::
        placesOfAllBelow (around + 1) (some (pathBelow outer r.name)) r.children := by
  obtain ⟨name, query, children⟩ := r
  rw [placesBelow]

/-- The relations in a text are listed from the outside in. -/
theorem Grows.forestIn {found : List (Nat × String)} (h : Grows found) {around : Nat}
    {outer : Option String} (hlisted : Listed found around outer)
    (split : List Char → Option Request × List Char) (levels : Nat) (text : List Char) :
    Grows (found ++ Relation.placesOfAllBelow around outer
      (Relation.forestIn split levels text)) := by
  induction levels using Nat.strong_induction_on generalizing found around outer text with
  | _ levels ih =>
    refine h.placesOfAllBelow (fun r hr found hfound hlisted => ?_) hlisted
    obtain ⟨hname, hinside⟩ := mem_forestIn hr
    have hpath := hfound.pathBelow hlisted hname
    rw [placesBelow_eq, List.append_cons]
    rcases hinside with ⟨-, hnone⟩ | ⟨inner, body, hlevels, -, hchildren⟩
    · rw [hnone, Relation.placesOfAllBelow, List.append_nil]
      exact hpath
    · -- The relations inside go on from the path that was listed just now.
      have hlisted' : Listed (found ++ [(around, Relation.pathBelow outer r.name)]) (around + 1)
          (some (Relation.pathBelow outer r.name)) :=
        ⟨around, rfl, List.mem_append_right _ List.mem_cons_self⟩
      rw [hchildren]
      exact ih inner (by omega) hpath hlisted' _

/-- The relations in a text have at most as many relations around them as levels are entered. -/
theorem le_of_mem_places_forestIn {split : List Char → Option Request × List Char} {levels : Nat}
    {text : List Char} {p : Nat × String} (hp : p ∈ places (forestIn split levels text)) :
    p.1 ≤ levels := by
  rw [forestIn_of_le split (Nat.le_refl levels), places, placesOfAllBelow_prune] at hp
  have hle := of_decide_eq_true (List.mem_filter.1 hp).2
  omega

/-! ## §5 Readings -/

/-- **What is read is well formed**, whatever the text holds, in either mode. Every relation has a
    name that is not empty, neither begins nor ends in a blank, and holds no brace and no comma. It
    has at most as many relations around it as the limit says, and where these are as many, it has
    no request and nothing inside it. The filter of every request is one that a value is read as.
    Every path is such a name, or goes on with one from a path in front of it, and no path has more
    steps than the limit says. -/
theorem readings_well_formed (policy : Policy) (source : String) :
    (∀ rs, policy.readForest source = .ok rs → ∀ around r, LiesIn rs around r →
      IsEntryName r.name ∧ around ≤ policy.maxDepth ∧
        (around = policy.maxDepth → r.query = none ∧ r.children = []) ∧
        ∀ q ∈ r.query, ∃ v : Json.Value, v.Canonical ∧ Filter.ofValue v = .ok q.filter) ∧
      ∀ paths, policy.readPaths source = .ok paths →
        ∃ found, Grows found ∧ found.map Prod.snd = paths ∧ ∀ p ∈ found, p.1 ≤ policy.maxDepth := by
  constructor
  · intro rs hrs around r hr
    rw [eq_of_readForest hrs] at hr
    obtain ⟨left, inside, hleft, hmem⟩ := hr.exists_mem_forestIn
    obtain ⟨hname, hinside⟩ := mem_forestIn hmem
    refine ⟨hname, by omega, fun hlimit => ?_, fun q hq => ?_⟩
    · rcases hinside with hnone | ⟨inner, -, hlevels, -⟩
      · exact hnone
      · omega
    · rcases hinside with ⟨hnone, -⟩ | ⟨inner, body, -, hquery, -⟩
      · rw [hnone] at hq
        cases hq
      · rw [hquery] at hq
        obtain ⟨object, hobject⟩ := exists_ofChars_of_splitRequest hq
        exact Request.exists_value_of_ofChars hobject
  · intro paths hpaths
    have hlisted : Listed [] 0 none := rfl
    have hgrows := Grows.nil.forestIn hlisted splitNothing policy.maxDepth
      (outermost source.toList).text
    rw [eq_of_readPaths hpaths]
    exact ⟨places (outline policy.maxDepth source), hgrows, map_snd_placesOfAllBelow 0 none _,
      fun p hp => le_of_mem_places_forestIn hp⟩

/-- A malformed list with a request in it, and with one level more than two. -/
def tangledList : String :=
  "posts\x7d \x7b\x7b\"where\":\x7b\"open\":true\x7d\x7d, by\x7blikes\x7bid\x7d x,,\x7d\x7d, ta\"gs"

/-- What is read of it with two levels. -/
def tangledForest : List Relation :=
  [⟨"posts", some { filter := Filter.withField {} "open" (.equalTo (.bool true)) },
      [⟨"by", none, [⟨"likes", none, []⟩]⟩]⟩,
    ⟨"ta\"gs", none, []⟩]

theorem readings_well_formed_tangledList :
    (Policy.mk .lenient 2).readForest tangledList = .ok tangledForest ∧
      IsEntryName "ta\"gs" ∧
      (∃ v : Json.Value, v.Canonical ∧
        Filter.ofValue v = .ok (Filter.withField {} "open" (.equalTo (.bool true)))) ∧
      (Policy.mk .lenient 2).readPaths tangledList =
        .ok ["posts", "posts.by", "posts.by.likes", "ta\"gs"] ∧
      ∃ found, Grows found ∧
        found.map Prod.snd = ["posts", "posts.by", "posts.by.likes", "ta\"gs"] ∧
        ∀ p ∈ found, p.1 ≤ 2 := by
  have hforest : (Policy.mk .lenient 2).readForest tangledList = .ok tangledForest :=
    toOption_eq_some.1 (by decide +kernel)
  have hpaths : (Policy.mk .lenient 2).readPaths tangledList =
      .ok ["posts", "posts.by", "posts.by.likes", "ta\"gs"] :=
    toOption_eq_some.1 (by decide +kernel)
  obtain ⟨hrelations, hgrows⟩ := readings_well_formed ⟨.lenient, 2⟩ tangledList
  have hposts : LiesIn tangledForest 0 (tangledForest.head (List.cons_ne_nil _ _)) :=
    .outermost List.mem_cons_self
  have htags : LiesIn tangledForest 0 ⟨"ta\"gs", none, []⟩ :=
    .outermost (List.mem_cons_of_mem _ List.mem_cons_self)
  have hrequest := (hrelations _ hforest 0 _ hposts).2.2.2 _ rfl
  exact ⟨hforest, (hrelations _ hforest 0 _ htags).1, hrequest, hpaths, hgrows _ hpaths⟩

end Relation

end ListQuery
