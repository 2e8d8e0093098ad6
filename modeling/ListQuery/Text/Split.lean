/-!
# Splitting a text at a separator

`split` cuts a text at every occurrence of one character. There is always at least one part, the
parts hold no separator, and writing the separator between them gives the text back
(`join_split`). The first part is what stands in front of the first separator
(`split_append_cons`), or else the whole text (`split_of_notMem`).
-/

namespace ListQuery.Text

/-- The parts of a text between the occurrences of `sep`, in order. -/
def split (sep : Char) : List Char → List (List Char)
  | [] => [[]]
  | c :: s =>
    if c = sep then [] :: split sep s
    else match split sep s with
      | [] => [[c]]
      | part :: parts => (c :: part) :: parts

/-- The parts written one after another with `sep` between neighbours. -/
def join (sep : List Char) : List (List Char) → List Char
  | [] => []
  | [part] => part
  | part :: parts => part ++ sep ++ join sep parts

theorem split_ne_nil (sep : Char) (s : List Char) : split sep s ≠ [] := by
  cases s with
  | nil => simp [split]
  | cons c s =>
    simp only [split]
    split
    · simp
    · split <;> simp

/-- A text without the separator is its only part. -/
theorem split_of_notMem {sep : Char} {s : List Char} (h : sep ∉ s) : split sep s = [s] := by
  induction s with
  | nil => rfl
  | cons c s ih =>
    obtain ⟨hc, hs⟩ := not_or.1 (mt List.mem_cons.2 h)
    rw [split, if_neg (Ne.symm hc), ih hs]

/-- What stands in front of the first separator is the first part. -/
theorem split_append_cons {sep : Char} {front : List Char} (h : sep ∉ front) (back : List Char) :
    split sep (front ++ sep :: back) = front :: split sep back := by
  induction front with
  | nil => simp [split]
  | cons c front ih =>
    obtain ⟨hc, hfront⟩ := not_or.1 (mt List.mem_cons.2 h)
    rw [List.cons_append, split, if_neg (Ne.symm hc), ih hfront]

/-- Splitting loses nothing but the separators. -/
theorem join_split (sep : Char) (s : List Char) : join [sep] (split sep s) = s := by
  induction s with
  | nil => rfl
  | cons c s ih =>
    simp only [split]
    split
    · rename_i h
      cases hs : split sep s with
      | nil => exact absurd hs (split_ne_nil sep s)
      | cons part parts =>
        -- The separator comes back between the empty first part and the others.
        rw [hs] at ih
        simp [join, ih, h]
    · cases hs : split sep s with
      | nil => exact absurd hs (split_ne_nil sep s)
      | cons part parts =>
        rw [hs] at ih
        cases parts with
        | nil => simpa [join] using ih
        | cons next rest => simpa [join] using ih

end ListQuery.Text
