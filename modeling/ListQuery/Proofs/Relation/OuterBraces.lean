import ListQuery.Proofs.Relation.Faultless
import ListQuery.Proofs.Text.Range

/-!
# Braces around a relation list

One pair of braces around a relation list makes no difference to its readings. The two texts that
are read then are not the same: a list without braces is trimmed, and what stands between braces is
not, so blanks can make one more entry at its end, or a part of a block that stays open. But blanks
mean nothing to a lenient reading (`forestIn_trim`), and a strict reading goes on without them if it
gets through them (`Faultless.trim`).

The list must not be enclosed by braces of its own as it stands, since only one pair is taken away.

## Main definitions

- `Enclosed`: whether the brace that closes the first character of a text is its last character.

## Main statements

- `enclosed_iff`: the texts that are enclosed by braces;
- `outermost_text_of_enclosed`, `outermost_text_of_not_enclosed`: the outermost level;
- `outer_braces_transparent`: the readings of a relation list with braces around it.
-/

namespace ListQuery.Relation

open Text (byteLength Blanks Padded)

/-! ## §1 Enclosed texts -/

/-- Whether one pair of braces is around a text: its first character is a brace, and its last one
    closes it. -/
def Enclosed (s : List Char) : Prop :=
  closeAt? s 0 = some (byteLength s - 1)

instance (s : List Char) : Decidable (Enclosed s) :=
  inferInstanceAs (Decidable (closeAt? s 0 = some (byteLength s - 1)))

theorem enclosed_open_iff {s : List Char} :
    Enclosed ('{' :: s) ↔ ∃ body, cutBlock s = some (body, []) := by
  have hclose : closeAt? ('{' :: s) 0 = (cutBlock s).map fun cut => 0 + 1 + byteLength cut.1 := rfl
  have hlength {body rest : List Char} (hcut : cutBlock s = some (body, rest)) :
      byteLength ('{' :: s) = 1 + (byteLength body + (1 + byteLength rest)) := by
    rw [closing_eq_append hcut, Text.byteLength_cons, Text.byteLength_append, Text.byteLength_cons]
    rfl
  unfold Enclosed
  rw [hclose, Option.map_eq_some_iff]
  constructor
  · rintro ⟨⟨body, rest⟩, hcut, hlast⟩
    rw [hlength hcut] at hlast
    dsimp only at hlast
    -- Behind the closing brace there is no room for another character.
    have hrest : rest = [] := by
      by_contra hne
      have hpos := Text.byteLength_pos hne
      omega
    exact ⟨body, hrest ▸ hcut⟩
  · rintro ⟨body, hcut⟩
    refine ⟨_, hcut, ?_⟩
    rw [hlength hcut, Text.byteLength_nil]
    dsimp only
    omega

/-- A text with braces around it is enclosed if these match. -/
theorem enclosed_braces_iff {x : List Char} :
    Enclosed ('{' :: x ++ ['}']) ↔ cutBlock (x ++ ['}']) = some (x, []) := by
  rw [List.cons_append, enclosed_open_iff]
  constructor
  · rintro ⟨body, hcut⟩
    obtain rfl : x = body := List.append_cancel_right (closing_eq_append hcut)
    exact hcut
  · intro hcut
    exact ⟨x, hcut⟩

/-! ## §2 The outermost level -/

/-- Between braces that match, blanks around them apart, stands the outermost level. -/
theorem outermost_text_of_enclosed {u v x : List Char} (hu : Blanks u) (hv : Blanks v)
    (hx : Enclosed ('{' :: x ++ ['}'])) :
    (outermost (u ++ ('{' :: x ++ ['}']) ++ v)).text = x := by
  have htrim : Text.trim (u ++ ('{' :: x ++ ['}']) ++ v) = '{' :: (x ++ ['}']) := by
    refine Padded.trim_eq ⟨u, v, hu, hv, rfl⟩ (List.cons_ne_nil _ _) ?_ ?_
    · rintro c ⟨⟩
      decide
    · rw [← List.cons_append, List.getLast?_concat]
      rintro c ⟨⟩
      decide
  unfold outermost
  simp only [htrim, enclosed_braces_iff.1 hx]

/-- A trimmed text that is not enclosed is the outermost level itself. -/
theorem outermost_text_of_not_enclosed {s : List Char} (h : ¬Enclosed (Text.trim s)) :
    (outermost s).text = Text.trim s := by
  unfold outermost
  generalize Text.trim s = t at h
  dsimp only
  split
  · split
    · rename_i body hcut
      exact absurd (enclosed_open_iff.2 ⟨body, hcut⟩) h
    · rfl
  · rfl

/-! ## §3 Readings -/

/-- **One pair of braces around a list is transparent.** Take a relation list, and put braces that
    match around it and blanks around these. If the list, trimmed, is not enclosed by a pair of
    braces of its own, then lenient readings give the same relations and the same paths with the
    braces as without them, and what strict readings give with them, they give without them. -/
theorem outer_braces_transparent (maxDepth : Nat) {before behind : String}
    (hbefore : Blanks before.toList) (hbehind : Blanks behind.toList) (x : String)
    (hx : Enclosed ("\x7b" ++ x ++ "\x7d").toList) (hbare : ¬Enclosed (Text.trim x.toList)) :
    let braced := before ++ ("\x7b" ++ x ++ "\x7d") ++ behind
    (∃ rs, (Policy.mk .lenient maxDepth).readForest x = .ok rs ∧
        (Policy.mk .lenient maxDepth).readForest braced = .ok rs) ∧
      (∃ paths, (Policy.mk .lenient maxDepth).readPaths x = .ok paths ∧
        (Policy.mk .lenient maxDepth).readPaths braced = .ok paths) ∧
      (∀ rs, (Policy.mk .strict maxDepth).readForest braced = .ok rs →
        (Policy.mk .strict maxDepth).readForest x = .ok rs) ∧
      ∀ paths, (Policy.mk .strict maxDepth).readPaths braced = .ok paths →
        (Policy.mk .strict maxDepth).readPaths x = .ok paths := by
  intro braced
  have htext : ("\x7b" ++ x ++ "\x7d").toList = '{' :: x.toList ++ ['}'] := by simp
  rw [htext] at hx
  have hbraced : (outermost braced.toList).text = x.toList := by
    have hlist : braced.toList = before.toList ++ ('{' :: x.toList ++ ['}']) ++ behind.toList := by
      simp [braced]
    rw [hlist]
    exact outermost_text_of_enclosed hbefore hbehind hx
  have hplain : (outermost x.toList).text = Text.trim x.toList :=
    outermost_text_of_not_enclosed hbare
  have hforest {split : List Char → Option Request × List Char} (hsplit : KeepsBlanks split) :
      forestIn split maxDepth (outermost braced.toList).text =
        forestIn split maxDepth (outermost x.toList).text := by
    rw [hbraced, hplain, forestIn_trim hsplit]
  have houtline : outline maxDepth braced = outline maxDepth x := hforest keepsBlanks_splitNothing
  refine ⟨⟨_, readForest_lenient maxDepth x, ?_⟩, ⟨_, readPaths_lenient maxDepth x, ?_⟩, ?_, ?_⟩
  · rw [readForest_lenient, hforest keepsBlanks_splitRequest]
  · rw [readPaths_lenient, houtline]
  · intro rs hrs
    have hfaultless := (exists_readForest_strict_iff maxDepth braced).1 ⟨rs, hrs⟩
    rw [hbraced] at hfaultless
    have hfaultless' := hplain ▸ hfaultless.trim
    obtain ⟨rs', hrs'⟩ := (exists_readForest_strict_iff maxDepth x).2 hfaultless'
    rw [hrs', eq_of_readForest hrs, eq_of_readForest hrs', hforest keepsBlanks_splitRequest]
  · intro paths hpaths
    have hfaultless := (exists_readPaths_strict_iff maxDepth braced).1 ⟨paths, hpaths⟩
    rw [hbraced] at hfaultless
    have hfaultless' := hplain ▸ hfaultless.trim
    obtain ⟨paths', hpaths'⟩ := (exists_readPaths_strict_iff maxDepth x).2 hfaultless'
    rw [hpaths', eq_of_readPaths hpaths, eq_of_readPaths hpaths', houtline]

/-- A list with blanks around everything. -/
def spacedList : String :=
  " author \x7b posts \x7d , id "

theorem outer_braces_transparent_spacedList :
    let braced := "\n" ++ ("\x7b" ++ spacedList ++ "\x7d") ++ " "
    Blanks "\n".toList ∧ Blanks " ".toList ∧
      Enclosed ("\x7b" ++ spacedList ++ "\x7d").toList ∧ ¬Enclosed (Text.trim spacedList.toList) ∧
      (Policy.mk .strict 1).readForest braced =
        .ok [⟨"author", none, [⟨"posts", none, []⟩]⟩, ⟨"id", none, []⟩] ∧
      (Policy.mk .strict 1).readForest spacedList =
        .ok [⟨"author", none, [⟨"posts", none, []⟩]⟩, ⟨"id", none, []⟩] ∧
      (Policy.mk .strict 1).readPaths braced = .ok ["author", "author.posts", "id"] ∧
      (Policy.mk .strict 1).readPaths spacedList = .ok ["author", "author.posts", "id"] := by
  intro braced
  have hbefore : Blanks "\n".toList := by decide
  have hbehind : Blanks " ".toList := by decide
  have henclosed : Enclosed ("\x7b" ++ spacedList ++ "\x7d").toList := by decide +kernel
  have hbare : ¬Enclosed (Text.trim spacedList.toList) := by decide +kernel
  have hforest : (Policy.mk .strict 1).readForest braced =
      .ok [⟨"author", none, [⟨"posts", none, []⟩]⟩, ⟨"id", none, []⟩] :=
    toOption_eq_some.1 (by decide +kernel)
  have hpaths : (Policy.mk .strict 1).readPaths braced = .ok ["author", "author.posts", "id"] :=
    toOption_eq_some.1 (by decide +kernel)
  obtain ⟨-, -, hstrict, hstrict'⟩ :=
    outer_braces_transparent 1 hbefore hbehind spacedList henclosed hbare
  exact ⟨hbefore, hbehind, henclosed, hbare, hforest, hstrict _ hforest, hpaths,
    hstrict' _ hpaths⟩

end ListQuery.Relation
