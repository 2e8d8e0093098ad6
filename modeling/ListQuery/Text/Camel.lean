import ListQuery.Text.Capital
import ListQuery.Text.Split

/-!
# Camel case

Relation names are written with underscores and their tables in camel case: every part between
underscores gets a capital first letter, and the underscores go (`courses_def` becomes
`CoursesDef`). A dotted path is put in camel case segment by segment.
-/

namespace ListQuery.Text

/-- A word with its first character in its capital form. -/
def capitalize : List Char → List Char
  | [] => []
  | c :: s => capital c ++ s

/-- A name with underscores in camel case. -/
def camel (s : List Char) : List Char :=
  (split '_' s).flatMap capitalize

def camelPath (s : List Char) : List Char :=
  join ['.'] ((split '.' s).map camel)

end ListQuery.Text
