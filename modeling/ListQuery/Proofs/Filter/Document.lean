import ListQuery.Proofs.Filter.Text
import ListQuery.Proofs.Json.Reread

/-!
# Reading the document of a filter

A filter has two wire forms. Its document lists the combinators before the fields, and a field that
is named like a combinator is listed beside it; its value has every name once. The text of the
document is read as the value, at every level of the tree, because the fields come last in the
document and so the field takes the place of the combinator.

This holds but for floating point numbers that are not read back. They are read from the document as
they are from their own texts.

## Main statements

- `Filter.whole_value_document`: what the text of the document is read as, and when it is the value;
- `Filter.whole_value_document_roundedTwice`: a number that is not read back.
-/

namespace ListQuery.Filter

open Json (Value Fault whole value)
open Nat (pow)

variable {ε : Type}

/-- **The text of a filter's document is read as the value of the filter**, with the numbers that its
    numbers are read as. So it is read as the value itself exactly if all numbers of the value are
    read back. The limit on nesting may be any that the document stays within. -/
theorem whole_value_document {f : Filter} (hf : f.Canonical)
    (hnumbers : ∀ n ∈ f.document.numbers, n.reread?.isSome) {depth : Nat}
    (hdepth : f.document.nesting ≤ depth) :
    (whole (value depth) f.document.text.toList : Except (Fault ε) Value) = .ok f.toValue.reread ∧
      ((whole (value depth) f.document.text.toList : Except (Fault ε) Value) = .ok f.toValue ↔
        ∀ n ∈ f.toValue.numbers, n.Rereads) := by
  have hvalue : f.document.canonical = f.toValue := hf.document
  have hread : (whole (value depth) f.document.text.toList : Except (Fault ε) Value) =
      .ok f.toValue.reread := by
    rw [Value.text, String.toList_ofList, Json.whole_value_reread hnumbers hdepth, hvalue]
  have hsome : ∀ n ∈ f.toValue.numbers, n.reread?.isSome := fun n hn =>
    hnumbers n (Value.mem_numbers_of_canonical (hvalue ▸ hn))
  rw [hread]
  refine ⟨rfl, ?_⟩
  rw [Except.ok.injEq]
  exact Value.reread_eq_self_iff hsome

/-- A filter with fields that are named like its combinators. -/
def shadowed : Filter :=
  let fields : Filter := (({} : Filter).withField "$not" (.equalTo (.ofInt64 (-7)))).withField "$and"
    { lt := some (.number (.float ⟨false, 1022 * pow 2 52, by decide⟩)) }
  { fields with
    and := [({} : Filter).withField "a" (.equalTo .null)]
    or := [{ ({} : Filter).withField "$or" (.equalTo (.object [("b", .array [])])) with or := [{}] }]
    not := some (({} : Filter).withField "c" { eq := some (.bool true), ne := some (.string "d") }) }

theorem whole_value_document_shadowed :
    shadowed.Canonical ∧ (∀ n ∈ shadowed.document.numbers, n.reread?.isSome) ∧
      shadowed.document.nesting ≤ 6 ∧ (∀ n ∈ shadowed.toValue.numbers, n.Rereads) ∧
      (whole (value 6) shadowed.document.text.toList : Except (Fault Empty) Value) =
        .ok shadowed.toValue := by
  have hcanonical : shadowed.Canonical := by decide +kernel
  have hnumbers : ∀ n ∈ shadowed.document.numbers, n.reread?.isSome := by decide +kernel
  have hdepth : shadowed.document.nesting ≤ 6 := by decide +kernel
  have hrereads : ∀ n ∈ shadowed.toValue.numbers, n.Rereads := by decide +kernel
  exact ⟨hcanonical, hnumbers, hdepth, hrereads,
    (whole_value_document hcanonical hnumbers hdepth).2.2 hrereads⟩

/-- A comparison with the number that is nearest to `1e-29`. This is its text, but it is read as the
    number above it. -/
def roundedTwice : Filter :=
  comparing "a" (.number (.float ⟨false, 4172965893781238599, by decide⟩))

/-- The text of a document need not be read as the value, however deep it may nest. -/
theorem whole_value_document_roundedTwice :
    roundedTwice.Canonical ∧ ∀ depth : Nat,
      (whole (value depth) roundedTwice.document.text.toList : Except (Fault Empty) Value) ≠
        .ok roundedTwice.toValue := by
  have hnumbers : ∀ n ∈ roundedTwice.document.numbers, n.reread? = some n.reread := by
    decide +kernel
  refine ⟨by decide +kernel, fun depth h => ?_⟩
  rw [Value.text, String.toList_ofList, (Json.rereadAs_mapNumbers _ hnumbers).whole,
    Value.atDepth] at h
  split at h
  · exact absurd (Except.ok.inj h) (by decide +kernel)
  · cases h

end ListQuery.Filter
