import ListQuery.Relation.Entry

/-!
# The outermost level

The outermost level of a relation list is its trimmed text, unless there are braces around it. In a
text without double quotes the brace that closes a block is found by counting braces: it is the
first closing brace by which as many blocks are closed as are open. This says without a search what
the outermost level of a relation list is.

## Main statements

- `closing_eq_some_iff`: the search for a closing brace finds the brace that counting finds;
- `outermost_text_eq_iff`: the outermost level is what stands between two braces that match, and
  the whole trimmed text if there are none around it.
-/

namespace ListQuery.Relation

open Text (byteLength)

/-! ## §1 Texts without a brace around them -/

/-- Outer braces are stripped only from a text that begins with one. -/
theorem outermost_of_not_open {s : List Char} (h : ∀ c ∈ (Text.trim s).head?, c ≠ '{') :
    outermost s = ⟨Text.trim s, byteLength (s.takeWhile Text.isBlank)⟩ := by
  unfold outermost
  generalize Text.trim s = t at h
  dsimp only
  split
  · exact absurd rfl (h '{' rfl)
  · rfl

/-! ## §2 Counting braces -/

/-- A text closes `depth` blocks that stand open before it, and every block that it opens; it closes
    no block before that is open. -/
structure Closes (depth : Nat) (s : List Char) : Prop where
  enough : ∀ t, t <+: s → t.count '}' ≤ depth + t.count '{'
  all : s.count '}' = depth + s.count '{'

theorem closes_nil_iff {depth : Nat} : Closes depth [] ↔ depth = 0 := by
  constructor
  · intro h
    exact h.all.symm
  · rintro rfl
    refine ⟨fun t ht => ?_, rfl⟩
    rw [List.prefix_nil.1 ht]
    exact Nat.le_refl _

theorem closes_cons_iff {depth depth' : Nat} {c : Char}
    (hc : depth' + [c].count '}' = depth + [c].count '{') (s : List Char) :
    Closes depth (c :: s) ↔ Closes depth' s := by
  have hcount (d : Char) (t : List Char) : (c :: t).count d = [c].count d + t.count d := by
    rw [← List.count_append]
    rfl
  constructor
  · rintro ⟨henough, hall⟩
    refine ⟨fun t ht => ?_, ?_⟩
    · have hle := henough (c :: t) (List.cons_prefix_cons.2 ⟨rfl, ht⟩)
      rw [hcount '}' t, hcount '{' t] at hle
      omega
    · rw [hcount '}' s, hcount '{' s] at hall
      omega
  · rintro ⟨henough, hall⟩
    refine ⟨fun t ht => ?_, ?_⟩
    · rcases List.prefix_cons_iff.1 ht with rfl | ⟨t, rfl, htail⟩
      · exact Nat.zero_le _
      · have hle := henough t htail
        rw [hcount '}' t, hcount '{' t]
        omega
    · rw [hcount '}' s, hcount '{' s]
      omega

theorem closes_close_iff {depth : Nat} (s : List Char) :
    Closes (depth + 1) ('}' :: s) ↔ Closes depth s :=
  closes_cons_iff (by simp) s

theorem not_closes_zero_close (s : List Char) : ¬Closes 0 ('}' :: s) := by
  intro h
  have hle := h.enough ['}'] (List.cons_prefix_cons.2 ⟨rfl, List.nil_prefix⟩)
  simp at hle

theorem closes_open_iff {depth : Nat} (s : List Char) :
    Closes depth ('{' :: s) ↔ Closes (depth + 1) s :=
  closes_cons_iff (by simp) s

theorem closes_char_iff {depth : Nat} {c : Char} (hopen : c ≠ '{') (hclose : c ≠ '}')
    (s : List Char) : Closes depth (c :: s) ↔ Closes depth s :=
  closes_cons_iff (by simp [hopen, hclose]) s

/-- Without quotes, the closing brace is found by counting. -/
theorem closing_eq_some_iff {depth : Nat} {s body rest : List Char} (hquote : '"' ∉ s) :
    closing depth .outside s = some (body, rest) ↔
      s = body ++ '}' :: rest ∧ Closes depth body := by
  induction s generalizing depth body with
  | nil => simp [closing]
  | cons c s ih =>
    obtain ⟨hc, hs⟩ := not_or.1 fun hmem => hquote (List.mem_cons.2 hmem)
    have hnext : Quoting.outside.next c = .outside := by simp [Quoting.next, Ne.symm hc]
    -- A character that closes no block by itself goes in front of what the rest is cut into.
    have hstep {d : Nat} (hnil : c = '}' → depth ≠ 0)
        (hcons : ∀ b, Closes depth (c :: b) ↔ Closes d b) :
        (closing d .outside s).map (fun cut => (c :: cut.1, cut.2)) = some (body, rest) ↔
          c :: s = body ++ '}' :: rest ∧ Closes depth body := by
      rw [Option.map_eq_some_iff]
      constructor
      · rintro ⟨⟨b, r⟩, hcut, heq⟩
        obtain ⟨rfl, rfl⟩ := Prod.mk.inj heq
        obtain ⟨rfl, hb⟩ := (ih hs).1 hcut
        exact ⟨rfl, (hcons b).2 hb⟩
      · rintro ⟨heq, hb⟩
        cases body with
        | nil => exact absurd (closes_nil_iff.1 hb) (hnil (List.cons.inj heq).1)
        | cons d b =>
          obtain ⟨rfl, hrest⟩ := List.cons.inj heq
          exact ⟨(b, rest), (ih hs).2 ⟨hrest, (hcons b).1 hb⟩, rfl⟩
    by_cases hclose : c = '}'
    · subst hclose
      cases depth with
      | zero =>
        rw [closing, if_pos rfl]
        constructor
        · intro h
          obtain ⟨rfl, rfl⟩ := Prod.mk.inj (Option.some.inj h)
          exact ⟨rfl, closes_nil_iff.2 rfl⟩
        · rintro ⟨heq, hb⟩
          cases body with
          | nil => rw [(List.cons.inj heq).2]
          | cons d b =>
            obtain ⟨rfl, -⟩ := List.cons.inj heq
            exact absurd hb (not_closes_zero_close b)
      | succ depth =>
        rw [closing, if_pos rfl]
        exact hstep (fun _ => Nat.succ_ne_zero _) closes_close_iff
    · by_cases hopen : c = '{'
      · subst hopen
        simp only [closing, if_neg hclose, if_true, hnext]
        exact hstep (absurd · hclose) closes_open_iff
      · simp only [closing, if_neg hclose, if_neg hopen, hnext]
        exact hstep (absurd · hclose) (closes_char_iff hopen hclose)

/-! ## §3 Braces around a text -/

/-- `text` is what `s` has between its first and its last character if these are braces that match,
    and `s` itself otherwise. -/
def Unbraced (s text : List Char) : Prop :=
  (s = '{' :: text ++ ['}'] ∧ Closes 0 text) ∨
    ((∀ body, s = '{' :: body ++ ['}'] → ¬Closes 0 body) ∧ text = s)

theorem Unbraced.subset {s text : List Char} (h : Unbraced s text) : text ⊆ s := by
  rcases h with ⟨rfl, -⟩ | ⟨-, rfl⟩
  · intro c hc
    simp [hc]
  · exact List.Subset.refl _

theorem cutBlock_eq_some_nil_iff {s body : List Char} (hquote : '"' ∉ s) :
    cutBlock s = some (body, []) ↔ s = body ++ ['}'] ∧ Closes 0 body :=
  closing_eq_some_iff hquote

theorem outermost_text_eq_iff {source text : List Char} (hquote : '"' ∉ source) :
    (outermost source).text = text ↔ Unbraced (Text.trim source) text := by
  have hquote' : '"' ∉ Text.trim source := fun hmem => hquote (Text.mem_trim hmem)
  unfold outermost Unbraced
  generalize Text.trim source = s at hquote'
  dsimp only
  split
  · rename_i s
    have hs : '"' ∉ s := fun hmem => hquote' (List.mem_cons_of_mem _ hmem)
    split
    · rename_i body hcut
      obtain ⟨rfl, hbody⟩ := (cutBlock_eq_some_nil_iff hs).1 hcut
      constructor
      · rintro rfl
        exact Or.inl ⟨rfl, hbody⟩
      · rintro (⟨heq, -⟩ | ⟨hnone, -⟩)
        · simpa using heq
        · exact absurd hbody (hnone body rfl)
    · rename_i hcut
      have hnone : ∀ body, '{' :: s = '{' :: body ++ ['}'] → ¬Closes 0 body := by
        intro body heq hbody
        exact hcut body ((cutBlock_eq_some_nil_iff hs).2 ⟨(List.cons.inj heq).2, hbody⟩)
      constructor
      · rintro rfl
        exact Or.inr ⟨hnone, rfl⟩
      · rintro (⟨heq, hbody⟩ | ⟨-, rfl⟩)
        · exact absurd hbody (hnone _ heq)
        · rfl
  · rename_i hopen
    constructor
    · rintro rfl
      exact Or.inr ⟨fun body heq => absurd heq (hopen _), rfl⟩
    · rintro (⟨heq, -⟩ | ⟨-, rfl⟩)
      · exact absurd heq (hopen _)
      · rfl

end ListQuery.Relation
