/-!
# Blank characters and trimming

Names and blocks of a relation list are trimmed of *blank* characters, the twenty-five code
points that carry the Unicode property `White_Space`. The byte order mark and the zero-width
space do not carry it, so they are text like any other.

The functions work on character lists, where a trimmed text is visibly an infix of the text it
came from; `takeWhile_append_trimStart` and `trimEnd_prefix_self` say what is cut off, and
`mem_trim` that nothing is added.
-/

namespace ListQuery.Text

/-! ## §1 The property -/

/-- Whether `c` carries the Unicode property `White_Space`. -/
def isBlank (c : Char) : Bool :=
  let n := c.toNat
  (0x09 ≤ n && n ≤ 0x0D) || n == 0x20 || n == 0x85 || n == 0xA0 || n == 0x1680 ||
    (0x2000 ≤ n && n ≤ 0x200A) || n == 0x2028 || n == 0x2029 || n == 0x202F ||
    n == 0x205F || n == 0x3000

/-- Space, tab, carriage return and line feed are blank. -/
theorem isBlank_of_isWhitespace {c : Char} (h : c.isWhitespace) : isBlank c := by
  simp only [Char.isWhitespace, Bool.or_eq_true, decide_eq_true_eq] at h
  rcases h with ((rfl | rfl) | rfl) | rfl <;> rfl

/-! ## §2 Trimming -/

/-- The text without its leading blanks. -/
def trimStart (s : List Char) : List Char :=
  s.dropWhile isBlank

/-- The text without its trailing blanks. -/
def trimEnd (s : List Char) : List Char :=
  (s.reverse.dropWhile isBlank).reverse

def trim (s : List Char) : List Char :=
  trimEnd (trimStart s)

/-- What stands before the trimmed start is blank, and together they are the text. -/
theorem takeWhile_append_trimStart (s : List Char) :
    s.takeWhile isBlank ++ trimStart s = s :=
  List.takeWhile_append_dropWhile

/-- Trimming at the end only cuts a tail off. -/
theorem trimEnd_prefix_self (s : List Char) : trimEnd s <+: s := by
  rw [trimEnd, ← List.reverse_suffix, List.reverse_reverse]
  exact List.dropWhile_suffix _

/-- A character of the trimmed text is a character of the text. -/
theorem mem_trim {c : Char} {s : List Char} (h : c ∈ trim s) : c ∈ s :=
  (List.dropWhile_suffix _).subset ((trimEnd_prefix_self _).subset h)

end ListQuery.Text
