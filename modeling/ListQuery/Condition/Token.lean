import ListQuery.Json.Value

/-!
# Tokens of a condition

The text of a condition is built from atoms, the connectives `AND`, `OR` and `NOT`, and parentheses.
An atom is a piece of condition text that is not looked into, with the arguments of its
placeholders. Keeping the tokens apart until the text is asked for keeps the structure of the
condition readable, whatever the atoms contain.
-/

namespace ListQuery

open Json (Value)

/-- A piece of condition text with the arguments of its placeholders. -/
structure Atom where
  text : String
  args : List Value := []
  deriving DecidableEq

inductive Token where
  | atom (a : Atom)
  | and
  | or
  | not
  | opening
  | closing
  deriving DecidableEq

namespace Token

def text : Token → String
  | .atom a => a.text
  | .and => " AND "
  | .or => " OR "
  | .not => "NOT "
  | .opening => "("
  | .closing => ")"

/-- The text of a sequence of tokens. -/
def textOf (tokens : List Token) : String :=
  String.join (tokens.map text)

/-- A sequence of tokens in parentheses. -/
def grouped (tokens : List Token) : List Token :=
  .opening :: tokens ++ [.closing]

end Token

end ListQuery
