/-!
# Byte positions in a text

Texts are character lists, but every position that is reported counts bytes of the UTF-8 form.
`byteLength` is the number of bytes of a text, and `dropBytes` finds the rest of a text at a byte
position: it has an answer exactly at the boundaries between characters.
-/

namespace ListQuery.Text

/-- The number of bytes in the UTF-8 form of a text. -/
def byteLength : List Char → Nat
  | [] => 0
  | c :: s => c.utf8Size + byteLength s

/-- The rest of the text after `n` bytes; `none` inside a character or past the end. -/
def dropBytes : Nat → List Char → Option (List Char)
  | 0, s => some s
  | _ + 1, [] => none
  | n + 1, c :: s => if c.utf8Size ≤ n + 1 then dropBytes (n + 1 - c.utf8Size) s else none
  termination_by structural _ s => s

@[simp] theorem byteLength_nil : byteLength [] = 0 := rfl

@[simp] theorem byteLength_cons (c : Char) (s : List Char) :
    byteLength (c :: s) = c.utf8Size + byteLength s := rfl

/-- Byte lengths add up. -/
@[simp] theorem byteLength_append (s t : List Char) :
    byteLength (s ++ t) = byteLength s + byteLength t := by
  induction s with
  | nil => simp
  | cons c s ih => simp [ih, Nat.add_assoc]

/-- The bytes of a string are those of its characters. -/
theorem byteLength_toList (s : String) : byteLength s.toList = s.utf8ByteSize := by
  -- Stated for character lists, the claim goes by induction.
  suffices h : ∀ t : List Char, byteLength t = (String.ofList t).utf8ByteSize by
    simpa using h s.toList
  intro t
  induction t with
  | nil => rfl
  | cons c t ih =>
    have hcons : String.ofList (c :: t) = String.singleton c ++ String.ofList t := by
      rw [String.singleton_eq_ofList, ← String.ofList_append, List.singleton_append]
    rw [byteLength_cons, ih, hcons, String.utf8ByteSize_append, String.utf8ByteSize_singleton]

/-- Dropping the bytes of a leading text leaves what follows it. -/
theorem dropBytes_append (s t : List Char) : dropBytes (byteLength s) (s ++ t) = some t := by
  induction s with
  | nil => cases t <;> rfl
  | cons c s ih =>
    obtain ⟨n, hn⟩ : ∃ n, c.utf8Size + byteLength s = n + 1 :=
      ⟨c.utf8Size + byteLength s - 1, by have := c.utf8Size_pos; omega⟩
    have h : n + 1 - c.utf8Size = byteLength s := by omega
    simp only [byteLength_cons, List.cons_append, hn, dropBytes, h, ih]
    rw [if_pos (by omega)]

end ListQuery.Text
