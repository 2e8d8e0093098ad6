import ListQuery.Condition.Reference
import ListQuery.Proofs.Filter.Visits
import ListQuery.Proofs.Text.Camel

/-!
# What references are made of

A path leads into a document if it has a dot and the text in front of the first one is no declared
relation. Whatever a path refers to, the reference is written with characters of the table and of
the path, with capital letters, and with a few marks of its own.

## Main statements

- `Recorder.isDocument_reference_iff`: the paths that lead into documents;
- `Recorder.mem_of_mem_reference`: the characters of a reference.
-/

namespace ListQuery

/-! ## §1 Documents -/

/-- A path leads into a document if and only if it is dotted and does not begin with a declared
    relation. -/
theorem Recorder.isDocument_reference_iff (r : Recorder) (path : String) :
    (r.reference path).isDocument = true ↔
      ∃ first, Filter.relationOfPath? path = some first ∧ r.isRelation first = false := by
  unfold Recorder.reference Filter.relationOfPath?
  generalize Text.split '.' path.toList = segments
  match segments with
  | [] => simp [Reference.isDocument]
  | [column] =>
    dsimp only
    split <;> simp [Reference.isDocument]
  | first :: next :: rest =>
    cases h : r.isRelation (String.ofList first) <;> simp [h, Reference.isDocument]

/-! ## §2 Characters -/

/-- The marks that references are written with. -/
def referenceMarks : List Char :=
  ['"', '.', '(', ' ', '#', '>', '\'', '{', ',', '}', ')']

theorem mem_of_mem_quoteIdentifier {d : Char} {name : List Char} (h : d ∈ quoteIdentifier name)
    (hquote : d ≠ '"') : d ∈ name := by
  simp only [quoteIdentifier, List.cons_append, List.mem_cons, List.mem_append, List.mem_flatMap,
    List.not_mem_nil, or_false, hquote, false_or] at h
  obtain ⟨c, hc, hd⟩ := h
  split at hd
  · simp [hquote] at hd
  · exact List.mem_singleton.1 hd ▸ hc

/-- Other than marks and letters, a reference has only characters of the table and of the path. -/
theorem Recorder.mem_of_mem_reference {r : Recorder} {path : String} {d : Char}
    (hd : d.toNat < 0x41) (hmarks : d ∉ referenceMarks) (h : d ∈ (r.reference path).chars) :
    d ∈ r.table.toList ∨ d ∈ path.toList := by
  simp only [referenceMarks, List.mem_cons, List.not_mem_nil, or_false, not_or] at hmarks
  obtain ⟨hquote, hdot, hmarks⟩ := hmarks
  have hname {name : List Char} (h : d ∈ quoteIdentifier name) : d ∈ name :=
    mem_of_mem_quoteIdentifier h hquote
  have hsegment {segment : List Char} (hmem : segment ∈ Text.split '.' path.toList)
      (h : d ∈ segment) : d ∈ path.toList := Text.mem_of_mem_split hmem h
  unfold Recorder.reference at h
  split at h
  · exact absurd (hname h) List.not_mem_nil
  · rename_i column hsplit
    have hcolumn (h : d ∈ column) : d ∈ path.toList := hsegment (by simp [hsplit]) h
    split at h
    · exact Or.inr (hcolumn (hname h))
    · rcases List.mem_append.1 h with h | h
      · exact Or.inl (hname h)
      · exact Or.inr (hcolumn (hname ((List.mem_cons.1 h).resolve_left hdot)))
  · rename_i first next rest hsplit
    right
    split at h
    · -- The table's name is made of the segments before the last one.
      dsimp only [Reference.chars] at h
      rcases List.mem_append.1 h with h | h
      · rcases Text.mem_join (Text.mem_of_mem_camelPath hd hdot (hname h)) with h | ⟨part, hpart, h⟩
        · exact absurd (List.mem_singleton.1 h) hdot
        · exact hsegment (hsplit ▸ List.dropLast_subset _ hpart) h
      · have hlast : (first :: next :: rest).getLastD [] ∈ first :: next :: rest :=
          List.getLast_mem (List.cons_ne_nil first (next :: rest))
        exact hsegment (hsplit ▸ hlast) (hname ((List.mem_cons.1 h).resolve_left hdot))
    · simp only [Reference.chars, List.mem_append, List.mem_cons, List.not_mem_nil, or_false,
        hmarks, false_or] at h
      rcases h with h | h
      · exact hsegment (by simp [hsplit]) (hname h)
      · rcases Text.mem_join h with h | ⟨part, hpart, h⟩
        · exact absurd (List.mem_singleton.1 h) hmarks.2.2.2.2.2.2.1
        · exact hsegment (by simp [hsplit, List.mem_cons.1 hpart]) h

end ListQuery
