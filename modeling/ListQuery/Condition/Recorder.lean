import ListQuery.Condition.Token

/-!
# Recording conditions

A `Recorder` collects the condition of a query on a table. It holds clauses, which all have to hold;
a conjunct or a negation is one more clause, and a disjunct turns everything recorded so far into
the left side of one clause. Recording an empty recorder into another one changes nothing.

Parentheses are written only where they are needed: around what is conjoined, disjoined or negated,
around a left side of several clauses, and around a disjunction that stands beside other clauses.
-/

namespace ListQuery

open Json (Value)

/-! ## §1 Clauses -/

/-- One of several conditions that all have to hold. -/
structure Clause where
  tokens : List Token
  args : List Value
  /-- Whether the tokens are an open disjunction. -/
  disjunction : Bool := false
  deriving DecidableEq

/-- A condition with the arguments of its placeholders. -/
structure Rendered where
  tokens : List Token := []
  args : List Value := []
  deriving DecidableEq

def Rendered.text (r : Rendered) : String :=
  Token.textOf r.tokens

/-- The tokens of a clause, where `beside` tells whether it stands beside other clauses. -/
def Clause.tokensBeside (beside : Bool) (c : Clause) : List Token :=
  if beside && c.disjunction then Token.grouped c.tokens else c.tokens

/-- Sequences of tokens with `AND` between neighbours. -/
def conjoined : List (List Token) → List Token
  | [] => []
  | [tokens] => tokens
  | tokens :: rest => tokens ++ .and :: conjoined rest

/-- The condition that all the clauses hold. -/
def render (clauses : List Clause) : Rendered where
  tokens := conjoined (clauses.map (Clause.tokensBeside (1 < clauses.length)))
  args := clauses.flatMap Clause.args

/-! ## §2 Recorders -/

/-- A condition under construction, with the table it is about and the relations known there. -/
structure Recorder where
  /-- The table's name; empty when there is none. -/
  table : String := ""
  /-- The relations that a dotted path may lead into. -/
  relations : List String := []
  clauses : List Clause := []
  deriving DecidableEq

namespace Recorder

instance : Inhabited Recorder := ⟨{}⟩

def withRelation (r : Recorder) (relation : String) : Recorder :=
  if r.relations.contains relation then r
  else { r with relations := r.relations ++ [relation] }

def isRelation (r : Recorder) (name : String) : Bool :=
  r.relations.contains name

def isEmpty (r : Recorder) : Bool :=
  r.clauses.isEmpty

def rendered (r : Recorder) : Rendered :=
  render r.clauses

def push (r : Recorder) (tokens : List Token) (args : List Value) : Recorder :=
  { r with clauses := r.clauses ++ [{ tokens, args }] }

def condition (r : Recorder) (a : Atom) : Recorder :=
  r.push [.atom a] a.args

/-- Record the condition of another recorder as a conjunct. -/
def and (r sub : Recorder) : Recorder :=
  if sub.isEmpty then r
  else r.push (Token.grouped sub.rendered.tokens) sub.rendered.args

/-- Record the condition of another recorder as an alternative to everything recorded so far, or,
    when nothing is, as the only clause. -/
def or (r sub : Recorder) : Recorder :=
  if sub.isEmpty then r
  else if r.isEmpty then r.push (Token.grouped sub.rendered.tokens) sub.rendered.args
  else
    -- Everything so far is one side. A single clause needs no parentheses there: it is an atom, a
    -- negation, something in parentheses, or a disjunction, and disjunctions group to the left.
    let left := r.rendered
    let leftTokens := if 1 < r.clauses.length then Token.grouped left.tokens else left.tokens
    { r with
      clauses := [{
        tokens := leftTokens ++ .or :: Token.grouped sub.rendered.tokens
        args := left.args ++ sub.rendered.args
        disjunction := true }] }

/-- Record the negated condition of another recorder. -/
def not (r sub : Recorder) : Recorder :=
  if sub.isEmpty then r
  else r.push (.not :: Token.grouped sub.rendered.tokens) sub.rendered.args

/-- A recorder for the same table and relations without any clause. -/
def isolated (r : Recorder) : Recorder :=
  { r with clauses := [] }

/-! ## §3 Context -/

/-- Recording a condition keeps the table and the relations, which an isolated recorder shows. -/
theorem isolated_condition (r : Recorder) (a : Atom) : (r.condition a).isolated = r.isolated :=
  rfl

/-- A conjunct leaves the table and the relations as they are. -/
theorem isolated_and (r sub : Recorder) : (r.and sub).isolated = r.isolated := by
  unfold Recorder.and
  split <;> rfl

/-- An alternative leaves the table and the relations as they are. -/
theorem isolated_or (r sub : Recorder) : (r.or sub).isolated = r.isolated := by
  unfold Recorder.or
  split
  · rfl
  · split <;> rfl

/-- A negation leaves the table and the relations as they are. -/
theorem isolated_not (r sub : Recorder) : (r.not sub).isolated = r.isolated := by
  unfold Recorder.not
  split <;> rfl

end Recorder

end ListQuery
