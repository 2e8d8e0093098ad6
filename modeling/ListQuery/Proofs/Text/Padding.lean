import ListQuery.Text.Blank
import Mathlib.Data.List.TakeWhile

/-!
# Texts with blanks around them

Trimming looks at the blanks at the ends of a text and at nothing else. A text is *padded* when it
is another one with blanks before and behind it; every text is its trimmed text, padded, and a
padded text trims to what is padded in it if that neither begins nor ends in a blank.

## Main statements

- `trimStart_append`, `trimEnd_append`: trimming stops where the blanks end;
- `Padded.trim_eq`, `padded_trim`: trimming takes the padding away.
-/

namespace ListQuery.Text

/-! ## §1 Texts that begin or end in no blank -/

theorem takeWhile_isBlank_eq_nil {s : List Char} (h : ∀ c ∈ s.head?, isBlank c = false) :
    s.takeWhile isBlank = [] := by
  cases s with
  | nil => rfl
  | cons c s => rw [List.takeWhile_cons, h c rfl]; rfl

theorem trimStart_eq_self {s : List Char} (h : ∀ c ∈ s.head?, isBlank c = false) :
    trimStart s = s := by
  have happend := takeWhile_append_trimStart s
  rwa [takeWhile_isBlank_eq_nil h] at happend

theorem trimEnd_eq_self {s : List Char} (h : ∀ c ∈ s.getLast?, isBlank c = false) :
    trimEnd s = s := by
  have hreverse : trimStart s.reverse = s.reverse := by
    apply trimStart_eq_self
    rwa [List.head?_reverse]
  show (trimStart s.reverse).reverse = s
  rw [hreverse, List.reverse_reverse]

theorem trim_eq_self {s : List Char} (hfirst : ∀ c ∈ s.head?, isBlank c = false)
    (hlast : ∀ c ∈ s.getLast?, isBlank c = false) : trim s = s := by
  unfold trim
  rw [trimStart_eq_self hfirst, trimEnd_eq_self hlast]

theorem head?_trimStart (s : List Char) : ∀ c ∈ (trimStart s).head?, isBlank c = false := by
  intro c hc
  have hnot := List.head?_dropWhile_not isBlank s
  rwa [show (s.dropWhile isBlank).head? = some c from hc] at hnot

theorem getLast?_trimEnd (s : List Char) : ∀ c ∈ (trimEnd s).getLast?, isBlank c = false := by
  intro c hc
  rw [trimEnd, List.getLast?_reverse] at hc
  exact head?_trimStart s.reverse c hc

theorem head?_trim (s : List Char) : ∀ c ∈ (trim s).head?, isBlank c = false := by
  intro c hc
  -- The trimmed text begins as the text without its leading blanks does.
  obtain ⟨rest, hrest⟩ := trimEnd_prefix_self (trimStart s)
  refine head?_trimStart s c ?_
  obtain ⟨t, ht⟩ := List.head?_eq_some_iff.1 hc
  rw [← hrest, show trimEnd (trimStart s) = c :: t from ht]
  rfl

theorem getLast?_trim (s : List Char) : ∀ c ∈ (trim s).getLast?, isBlank c = false :=
  getLast?_trimEnd (trimStart s)

/-! ## §2 Blanks -/

/-- A text of blanks. -/
def Blanks (s : List Char) : Prop :=
  ∀ c ∈ s, isBlank c = true

instance (s : List Char) : Decidable (Blanks s) :=
  List.decidableBAll _ s

theorem blanks_nil : Blanks [] :=
  nofun

theorem trimStart_eq_nil_iff {s : List Char} : trimStart s = [] ↔ Blanks s :=
  List.dropWhile_eq_nil_iff

theorem trimEnd_eq_nil_iff {s : List Char} : trimEnd s = [] ↔ Blanks s := by
  rw [trimEnd, List.reverse_eq_nil_iff, List.dropWhile_eq_nil_iff]
  simp only [List.mem_reverse, Blanks]

theorem trim_eq_nil_iff {s : List Char} : trim s = [] ↔ Blanks s := by
  constructor
  · intro h
    have hblanks : Blanks (trimStart s) := trimEnd_eq_nil_iff.1 h
    apply trimStart_eq_nil_iff.1
    -- What is left at the start does not begin with a blank.
    cases hs : trimStart s with
    | nil => rfl
    | cons c t =>
      have hblank : isBlank c = true := hblanks c (by rw [hs]; exact List.mem_cons_self)
      have hfirst : isBlank c = false := head?_trimStart s c (by rw [hs]; rfl)
      exact absurd (hblank.symm.trans hfirst) (by simp)
  · intro h
    rw [trim, trimStart_eq_nil_iff.2 h]
    rfl

/-- Trimming the start stops at the first character that is not blank. -/
theorem trimStart_append {s : List Char} (h : trimStart s ≠ []) (t : List Char) :
    trimStart (s ++ t) = trimStart s ++ t := by
  have hne : ¬(s.dropWhile isBlank).isEmpty = true := fun hempty => h (List.isEmpty_iff.1 hempty)
  exact List.dropWhile_append.trans (if_neg hne)

theorem trimStart_append_of_blanks {s : List Char} (h : Blanks s) (t : List Char) :
    trimStart (s ++ t) = trimStart t :=
  List.dropWhile_append_of_pos h

/-- Trimming the end stops at the last character that is not blank. -/
theorem trimEnd_append {t : List Char} (h : trimEnd t ≠ []) (s : List Char) :
    trimEnd (s ++ t) = s ++ trimEnd t := by
  have hne : trimStart t.reverse ≠ [] := fun hnil => h (congrArg List.reverse hnil)
  show (trimStart (s ++ t).reverse).reverse = s ++ (trimStart t.reverse).reverse
  rw [List.reverse_append, trimStart_append hne, List.reverse_append, List.reverse_reverse]

theorem trimEnd_append_of_blanks {t : List Char} (h : Blanks t) (s : List Char) :
    trimEnd (s ++ t) = trimEnd s := by
  have hreverse : Blanks t.reverse := fun c hc => h c (List.mem_reverse.1 hc)
  show (trimStart (s ++ t).reverse).reverse = (trimStart s.reverse).reverse
  rw [List.reverse_append, trimStart_append_of_blanks hreverse]

theorem trim_blanks_append {s : List Char} (h : Blanks s) (t : List Char) :
    trim (s ++ t) = trim t := by
  rw [trim, trimStart_append_of_blanks h]
  rfl

theorem trim_append_of_blanks {t : List Char} (h : Blanks t) (s : List Char) :
    trim (s ++ t) = trim s := by
  by_cases hs : trimStart s = []
  · -- Both texts are blank.
    have hblanks := trimStart_eq_nil_iff.1 hs
    rw [trim_blanks_append hblanks, trim_eq_nil_iff.2 h, trim_eq_nil_iff.2 hblanks]
  · rw [trim, trimStart_append hs, trimEnd_append_of_blanks h]
    rfl

theorem trimEnd_cons {c : Char} (hc : isBlank c = false) (s : List Char) :
    trimEnd (c :: s) = c :: trimEnd s := by
  by_cases hs : trimEnd s = []
  · -- Nothing is left behind the character.
    rw [hs, ← List.singleton_append, trimEnd_append_of_blanks (trimEnd_eq_nil_iff.1 hs)]
    exact trimEnd_eq_self (by simpa using hc)
  · exact trimEnd_append hs [c]

/-- A trimmed text begins with the first character that is not blank. -/
theorem head?_trim_eq (s : List Char) : (trim s).head? = (trimStart s).head? := by
  unfold trim
  cases hs : trimStart s with
  | nil => rfl
  | cons c t =>
    have hc : isBlank c = false := head?_trimStart s c (by rw [hs]; rfl)
    rw [trimEnd_cons hc]
    rfl

/-! ## §3 Padding -/

/-- `t` is `s` with blanks around it. -/
def Padded (s t : List Char) : Prop :=
  ∃ u v, Blanks u ∧ Blanks v ∧ t = u ++ s ++ v

/-- What is trimmed off the end of a text is blank. -/
theorem exists_trimEnd_append (s : List Char) : ∃ v, Blanks v ∧ trimEnd s ++ v = s := by
  refine ⟨(s.reverse.takeWhile isBlank).reverse,
    fun c hc => List.mem_takeWhile_imp (List.mem_reverse.1 hc), ?_⟩
  show (s.reverse.dropWhile isBlank).reverse ++ _ = s
  rw [← List.reverse_append, List.takeWhile_append_dropWhile, List.reverse_reverse]

/-- Every text is its trimmed text with blanks around it. -/
theorem padded_trim (s : List Char) : Padded (trim s) s := by
  obtain ⟨v, hv, hend⟩ := exists_trimEnd_append (trimStart s)
  refine ⟨s.takeWhile isBlank, v, fun c hc => List.mem_takeWhile_imp hc, hv, ?_⟩
  rw [trim, List.append_assoc, hend, takeWhile_append_trimStart]

namespace Padded

variable {s t : List Char}

theorem refl (s : List Char) : Padded s s :=
  ⟨[], [], blanks_nil, blanks_nil, by simp⟩

/-- Trimming takes the padding away, and nothing else. -/
theorem trim_eq (h : Padded s t) (hne : s ≠ []) (hfirst : ∀ c ∈ s.head?, isBlank c = false)
    (hlast : ∀ c ∈ s.getLast?, isBlank c = false) : trim t = s := by
  obtain ⟨u, v, hu, hv, rfl⟩ := h
  have hstart : trimStart s ≠ [] := by rwa [trimStart_eq_self hfirst]
  rw [trim, List.append_assoc, trimStart_append_of_blanks hu, trimStart_append hstart,
    trimStart_eq_self hfirst, trimEnd_append_of_blanks hv, trimEnd_eq_self hlast]

theorem ne_nil (h : Padded s t) (hne : s ≠ []) : t ≠ [] := by
  obtain ⟨u, v, -, -, rfl⟩ := h
  simp [hne]

/-- The start is trimmed by taking the padding before the text away. -/
theorem trimStart (h : Padded s t) (hne : s ≠ []) (hfirst : ∀ c ∈ s.head?, isBlank c = false) :
    Padded s (Text.trimStart t) := by
  obtain ⟨u, v, hu, hv, rfl⟩ := h
  have hstart : Text.trimStart s ≠ [] := by rwa [trimStart_eq_self hfirst]
  rw [List.append_assoc, trimStart_append_of_blanks hu, trimStart_append hstart,
    trimStart_eq_self hfirst]
  exact ⟨[], v, blanks_nil, hv, rfl⟩

/-- The end is trimmed by taking the padding behind the text away. -/
theorem trimEnd (h : Padded s t) (hne : s ≠ []) (hlast : ∀ c ∈ s.getLast?, isBlank c = false) :
    Padded s (Text.trimEnd t) := by
  obtain ⟨u, v, hu, hv, rfl⟩ := h
  have hend : Text.trimEnd s ≠ [] := by rwa [trimEnd_eq_self hlast]
  rw [trimEnd_append_of_blanks hv, trimEnd_append hend, trimEnd_eq_self hlast]
  exact ⟨u, [], hu, blanks_nil, (List.append_nil _).symm⟩

theorem mem (h : Padded s t) {c : Char} (hc : c ∈ t) : c ∈ s ∨ isBlank c = true := by
  obtain ⟨u, v, hu, hv, rfl⟩ := h
  rcases List.mem_append.1 hc with hc | hc
  · rcases List.mem_append.1 hc with hc | hc
    · exact Or.inr (hu c hc)
    · exact Or.inl hc
  · exact Or.inr (hv c hc)

end Padded

end ListQuery.Text
