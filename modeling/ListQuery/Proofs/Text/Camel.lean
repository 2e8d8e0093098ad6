import ListQuery.Text.Camel

/-!
# Characters of camel case

Camel case takes the underscores out of a name and puts capital letters in. Below `'A'`, where
punctuation and digits stand, nothing is put in, and camel case has only characters of the name.

## Main statements

- `le_toNat_of_mem_capital`: a capital form is letters, or the character itself;
- `mem_of_mem_camelPath`: the punctuation of a path in camel case is that of the path.
-/

namespace ListQuery.Text

/-! ## §1 Parts of a text -/

theorem mem_of_mem_split {sep d : Char} {s part : List Char} (hpart : part ∈ split sep s)
    (h : d ∈ part) : d ∈ s := by
  induction s generalizing part with
  | nil =>
    rw [split, List.mem_singleton] at hpart
    exact hpart ▸ h
  | cons c s ih =>
    rw [split] at hpart
    split at hpart
    · rcases List.mem_cons.1 hpart with rfl | hpart
      · cases h
      · exact List.mem_cons_of_mem c (ih hpart h)
    · split at hpart
      · rename_i hsplit
        exact absurd hsplit (split_ne_nil sep s)
      · rename_i first parts hsplit
        rw [hsplit] at ih
        rcases List.mem_cons.1 hpart with rfl | hpart
        · -- The first part begins with the character in front.
          rcases List.mem_cons.1 h with rfl | h
          · exact List.mem_cons_self
          · exact List.mem_cons_of_mem c (ih List.mem_cons_self h)
        · exact List.mem_cons_of_mem c (ih (List.mem_cons_of_mem first hpart) h)

/-- What stands in joined parts stands in the separator or in one of the parts. -/
theorem mem_join {sep : List Char} {parts : List (List Char)} {d : Char} (h : d ∈ join sep parts) :
    d ∈ sep ∨ ∃ part ∈ parts, d ∈ part := by
  induction parts with
  | nil => cases h
  | cons part parts ih =>
    cases parts with
    | nil => exact Or.inr ⟨part, List.mem_cons_self, h⟩
    | cons next rest =>
      have hjoin : join sep (part :: next :: rest) = part ++ sep ++ join sep (next :: rest) := rfl
      rw [hjoin, List.mem_append, List.mem_append] at h
      rcases h with (h | h) | h
      · exact Or.inr ⟨part, List.mem_cons_self, h⟩
      · exact Or.inl h
      · rcases ih h with h | ⟨other, hother, h⟩
        · exact Or.inl h
        · exact Or.inr ⟨other, List.mem_cons_of_mem part hother, h⟩

/-! ## §2 Capital forms -/

/-- The run leads to code points of characters, from `'A'` on. -/
def CapitalRun.LeadsToLetters (run : CapitalRun) : Prop :=
  0x41 ≤ run.first + run.shift ∧
    (run.last + run.shift < 0xD800 ∨
      0xDFFF < run.first + run.shift ∧ run.last + run.shift < 0x110000)

instance : DecidablePred CapitalRun.LeadsToLetters :=
  fun _ => inferInstanceAs (Decidable (_ ∧ (_ ∨ _ ∧ _)))

theorem leadsToLetters_of_mem (n : Nat) : ∀ run ∈ capitalRunsNear n, run.LeadsToLetters := by
  have hlatin : ∀ run ∈ latinCapitalRuns, run.LeadsToLetters := by decide +kernel
  have hmiddle : ∀ run ∈ middleCapitalRuns, run.LeadsToLetters := by decide +kernel
  have hhigh : ∀ run ∈ highCapitalRuns, run.LeadsToLetters := by decide +kernel
  unfold capitalRunsNear
  split
  · exact hlatin
  · split
    · exact hmiddle
    · exact hhigh

/-- The code point that a run leads to is one of a character. -/
theorem CapitalRun.LeadsToLetters.le_toNat {run : CapitalRun} (h : run.LeadsToLetters) {n : Nat}
    (hcovers : run.covers n = true) : 0x41 ≤ (Char.ofNat (n + run.shift).toNat).toNat := by
  obtain ⟨hletter, hvalid⟩ := h
  simp only [CapitalRun.covers, Bool.and_eq_true, decide_eq_true_eq] at hcovers
  obtain ⟨⟨hfirst, hlast⟩, -⟩ := hcovers
  have hchar : (n + run.shift).toNat.isValidChar := by
    rcases hvalid with hbelow | ⟨habove, hend⟩
    · exact Or.inl (by omega)
    · exact Or.inr ⟨by omega, by omega⟩
  rw [Char.ofNat, dif_pos hchar]
  show 0x41 ≤ (n + run.shift).toNat
  omega

theorem le_of_mem_longCapitals :
    ∀ entry ∈ longCapitals, ∀ n ∈ entry.2, 0x41 ≤ (Char.ofNat n).toNat := by
  decide +kernel

/-- The capital form of a character is that character, or letters alone. -/
theorem le_toNat_of_mem_capital {c d : Char} (h : d ∈ capital c) : d = c ∨ 0x41 ≤ d.toNat := by
  unfold capital at h
  dsimp only at h
  split at h
  · rename_i form hform
    obtain ⟨n, hn, rfl⟩ := List.mem_map.1 h
    obtain ⟨front, back, htable, -⟩ := List.lookup_eq_some_iff.1 hform
    have hentry : (c.toNat, form) ∈ longCapitals := htable ▸ List.mem_append_cons_self
    exact Or.inr (le_of_mem_longCapitals _ hentry n hn)
  · split at h
    · rename_i run hrun
      rw [List.mem_singleton] at h
      have hletters := leadsToLetters_of_mem c.toNat run (List.mem_of_find?_eq_some hrun)
      have hcovers : run.covers c.toNat = true :=
        List.find?_some (p := fun run : CapitalRun => run.covers c.toNat) hrun
      exact Or.inr (h ▸ hletters.le_toNat hcovers)
    · exact Or.inl (List.mem_singleton.1 h)

/-! ## §3 Camel case -/

theorem mem_of_mem_camel {d : Char} (hd : d.toNat < 0x41) {s : List Char} (h : d ∈ camel s) :
    d ∈ s := by
  obtain ⟨part, hpart, hcapital⟩ := List.mem_flatMap.1 h
  cases part with
  | nil => cases hcapital
  | cons c part =>
    rcases List.mem_append.1 hcapital with hfirst | hrest
    · rcases le_toNat_of_mem_capital hfirst with rfl | hle
      · exact mem_of_mem_split hpart List.mem_cons_self
      · omega
    · exact mem_of_mem_split hpart (List.mem_cons_of_mem c hrest)

/-- Other than dots, the punctuation of a path in camel case is that of the path. -/
theorem mem_of_mem_camelPath {d : Char} (hd : d.toNat < 0x41) (hdot : d ≠ '.') {s : List Char}
    (h : d ∈ camelPath s) : d ∈ s := by
  rcases mem_join h with hsep | ⟨part, hpart, hmem⟩
  · exact absurd (List.mem_singleton.1 hsep) hdot
  · obtain ⟨segment, hsegment, rfl⟩ := List.mem_map.1 hpart
    exact mem_of_mem_split hsegment (mem_of_mem_camel hd hmem)

end ListQuery.Text
