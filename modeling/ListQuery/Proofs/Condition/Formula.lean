import ListQuery.Condition.Token

/-!
# Reading a condition

A condition is read as a formula over its atoms: `NOT` binds tighter than `AND`, `AND` binds tighter
than `OR`, both group to the left, and parentheses make an operand of anything. `Reads` is this
grammar, with one level for each precedence.

The grammar is unambiguous. A push-down reader, which goes over the tokens once and keeps a frame
for every open parenthesis, arrives at the formula of every derivation.

## Main statements

- `Reads.readTokens_eq`: the push-down reader finds the formula of a derivation;
- `Reads.unique`: a condition reads as at most one formula.
-/

namespace ListQuery

/-! ## §1 Formulas -/

/-- A formula over atoms. -/
inductive Formula where
  | atom (a : Atom)
  | not (φ : Formula)
  | and (φ ψ : Formula)
  | or (φ ψ : Formula)
  deriving DecidableEq

/-- Whether a formula holds under a truth assignment of the atoms. -/
def Formula.holds (v : Atom → Bool) : Formula → Bool
  | .atom a => v a
  | .not φ => !φ.holds v
  | .and φ ψ => φ.holds v && ψ.holds v
  | .or φ ψ => φ.holds v || ψ.holds v

/-! ## §2 The grammar -/

/-- The levels of the grammar, from tight to loose. -/
inductive Precedence where
  | operand
  | conjunction
  | disjunction
  deriving DecidableEq

/-- The readings of sequences of tokens. -/
inductive Reads : Precedence → List Token → Formula → Prop where
  /-- An atom is an operand. -/
  | atom (a : Atom) : Reads .operand [.atom a] (.atom a)
  /-- Anything in parentheses is an operand. -/
  | grouped {ts : List Token} {φ : Formula} :
      Reads .disjunction ts φ → Reads .operand (Token.grouped ts) φ
  /-- A negated operand is an operand. -/
  | not {ts : List Token} {φ : Formula} :
      Reads .operand ts φ → Reads .operand (.not :: ts) (.not φ)
  /-- An operand is a conjunction of one. -/
  | ofOperand {ts : List Token} {φ : Formula} : Reads .operand ts φ → Reads .conjunction ts φ
  /-- A conjunction goes on with an operand. -/
  | and {ts us : List Token} {φ ψ : Formula} : Reads .conjunction ts φ → Reads .operand us ψ →
      Reads .conjunction (ts ++ .and :: us) (.and φ ψ)
  /-- A conjunction is a disjunction of one. -/
  | ofConjunction {ts : List Token} {φ : Formula} :
      Reads .conjunction ts φ → Reads .disjunction ts φ
  /-- A disjunction goes on with a conjunction. -/
  | or {ts us : List Token} {φ ψ : Formula} : Reads .disjunction ts φ → Reads .conjunction us ψ →
      Reads .disjunction (ts ++ .or :: us) (.or φ ψ)

/-! ## §3 The push-down reader -/

/-- What was read inside a parenthesis that is still open. -/
structure Frame where
  /-- The disjunction before the conjunction at hand. -/
  disjuncts : Option Formula := none
  /-- The conjunction before the operand at hand. -/
  conjuncts : Option Formula := none
  /-- How often the operand at hand is negated. -/
  negations : Nat := 0

/-- A formula with a number of negations before it. -/
def Formula.negate (φ : Formula) : Nat → Formula
  | 0 => φ
  | n + 1 => φ.not.negate n

namespace Frame

/-- The frame after its operand. -/
def add (frame : Frame) (φ : Formula) : Frame :=
  { frame with
    conjuncts := Option.merge .and frame.conjuncts (some (φ.negate frame.negations))
    negations := 0 }

/-- The formula of everything that was read. -/
def close (frame : Frame) : Option Formula :=
  Option.merge .or frame.disjuncts frame.conjuncts

/-- The frame of a disjunction that goes on. -/
def disjoin (frame : Frame) : Frame :=
  { disjuncts := frame.close }

end Frame

mutual

/-- Read on where an operand has to stand. -/
def readOperand (stack : List Frame) (frame : Frame) : List Token → Option Formula
  | .atom a :: rest => readOperator stack (frame.add (.atom a)) rest
  | .not :: rest => readOperand stack { frame with negations := frame.negations + 1 } rest
  | .opening :: rest => readOperand (frame :: stack) {} rest
  | _ => none

/-- Read on where an operand has just ended. -/
def readOperator (stack : List Frame) (frame : Frame) : List Token → Option Formula
  | [] => if stack.isEmpty then frame.close else none
  | .and :: rest => readOperand stack frame rest
  | .or :: rest => readOperand stack frame.disjoin rest
  | .closing :: rest =>
    match stack, frame.close with
    | outer :: stack, some φ => readOperator stack (outer.add φ) rest
    | _, _ => none
  | _ => none

end

/-- Read a whole condition. -/
def readTokens (ts : List Token) : Option Formula :=
  readOperand [] {} ts

/-! ## §4 The reader follows the grammar -/

/-- How the reader gets over tokens that read as a formula, whatever comes after them: an operand
    is added to the frame; a conjunction stands in the frame in the end; and a disjunction that
    began with a fresh frame is what the frame closes to. -/
def ReadsOver (ts : List Token) (φ : Formula) : Precedence → Prop
  | .operand => ∀ stack frame rest,
      readOperand stack frame (ts ++ rest) = readOperator stack (frame.add φ) rest
  | .conjunction => ∀ stack disjuncts rest,
      readOperand stack { disjuncts } (ts ++ rest) =
        readOperator stack { disjuncts, conjuncts := some φ } rest
  | .disjunction => ∀ stack, ∃ frame : Frame, frame.close = some φ ∧
      ∀ rest, readOperand stack {} (ts ++ rest) = readOperator stack frame rest

/-- The reader gets over everything that the grammar derives. -/
theorem Reads.readsOver {level : Precedence} {ts : List Token} {φ : Formula}
    (h : Reads level ts φ) : ReadsOver ts φ level := by
  -- The induction is on the derivation; every case is one or two moves of the reader.
  induction h with
  | atom a =>
    intro stack frame rest
    rfl
  | @grouped ts φ _ ih =>
    intro stack frame rest
    -- Inside the parentheses a fresh frame is filled, and its formula is added to the outer one.
    obtain ⟨inner, hclose, hread⟩ := ih (frame :: stack)
    show readOperand (frame :: stack) {} (ts ++ [.closing] ++ rest) = _
    rw [List.append_assoc, hread]
    simp only [List.singleton_append, readOperator, hclose]
  | not _ ih =>
    intro stack frame rest
    show readOperand stack { frame with negations := frame.negations + 1 } (_ ++ rest) = _
    rw [ih]
    rfl
  | ofOperand _ ih =>
    -- The frame holds no conjunction yet, so the operand becomes one.
    intro stack disjuncts rest
    rw [ih]
    rfl
  | @and ts us φ ψ _ _ ihLeft ihRight =>
    intro stack disjuncts rest
    rw [List.append_assoc, ihLeft, List.cons_append, readOperator, ihRight]
    rfl
  | @ofConjunction ts φ _ ih =>
    intro stack
    exact ⟨{ conjuncts := some φ }, rfl, ih stack none⟩
  | @or ts us φ ψ _ _ ihLeft ihRight =>
    intro stack
    -- Behind `OR` the left side is the whole disjunction so far, however it was put together.
    obtain ⟨left, hclose, hread⟩ := ihLeft stack
    refine ⟨{ disjuncts := some φ, conjuncts := some ψ }, rfl, ?_⟩
    intro rest
    have hdisjoin : left.disjoin = { disjuncts := some φ } := by rw [Frame.disjoin, hclose]
    rw [List.append_assoc, hread, List.cons_append, readOperator, hdisjoin, ihRight]

theorem Reads.readTokens_eq {ts : List Token} {φ : Formula} (h : Reads .disjunction ts φ) :
    readTokens ts = some φ := by
  obtain ⟨frame, hclose, hread⟩ := h.readsOver []
  have hall := hread []
  rw [List.append_nil] at hall
  rw [readTokens, hall]
  exact hclose

/-- A condition reads as at most one formula. -/
theorem Reads.unique {ts : List Token} {φ ψ : Formula} (hφ : Reads .disjunction ts φ)
    (hψ : Reads .disjunction ts ψ) : φ = ψ := by
  have heq : some φ = some ψ := by rw [← hφ.readTokens_eq, hψ.readTokens_eq]
  exact Option.some.inj heq

end ListQuery
