import ListQuery.Decimal.Binary64

/-!
# The shortest decimal of a binary number

Between every two neighbouring binary numbers lies a point from which on a decimal rounds to the
upper of them. The decimals that round to one number therefore form an interval, which includes
its ends exactly when the significand is even. The shortest decimal is the one with the fewest
digits in the interval; of two with equally many it is the nearer one, and of two equally near the
one with an even last digit.

For each count of digits only the two neighbours of the number on that decimal grid can be in the
interval, so the search looks at these two for 1, 2, … 17 digits. Seventeen digits always suffice.
-/

namespace ListQuery.Decimal

open Nat (pow)

/-- A decimal in scientific form, `digits · 10^exponent`. -/
structure Scientific where
  digits : Nat
  exponent : Int
  deriving DecidableEq, Repr

/-! ## §1 Size -/

def decimalLength (n : Nat) : Nat :=
  (Nat.toDigits 10 n).length

/-- The greatest `e` with `10^e ≤ num / den`, for positive `num` and `den`. -/
def floorLogTen (num den : Nat) : Int :=
  if den ≤ num then (decimalLength (num / den) : Int) - 1
  else -(decimalLength ((den - 1) / num) : Int)

/-! ## §2 The interval of a number -/

/-- The decimals that round to a number, in units of a quarter of its last binary place. -/
structure Interval where
  centre : Nat
  low : Nat
  high : Nat
  /-- Whether the ends round to the number as well. -/
  closed : Bool
  /-- The binary exponent of the unit. -/
  unit : Int

/-- The interval of the number with this positive rank. The number below a power of two is only
    half as far away as the one above it. -/
def intervalOfRank (rank : Nat) : Interval :=
  let m := significand rank
  let below := if m = pow 2 52 ∧ pow 2 53 ≤ rank then 1 else 2
  { centre := 4 * m, low := 4 * m - below, high := 4 * m + 2, closed := m % 2 = 0
    unit := binaryExponent rank - 2 }

/-- `n · 2^b` and `d · 10^e` brought to one scale, for comparison. -/
def commonScale (n : Nat) (b : Int) (d : Nat) (e : Int) : Nat × Nat :=
  (n * pow 2 b.toNat * pow 10 (-e).toNat, d * pow 10 e.toNat * pow 2 (-b).toNat)

/-- Whether the decimal `d · 10^e` lies in the interval. -/
def Interval.contains (i : Interval) (d : Nat) (e : Int) : Bool :=
  let low := commonScale i.low i.unit d e
  let high := commonScale i.high i.unit d e
  if i.closed then low.1 ≤ low.2 && high.2 ≤ high.1 else low.1 < low.2 && high.2 < high.1

/-- Of the grid neighbours `d` and `d + 1` the one nearer to the number. -/
def Interval.nearer (i : Interval) (d : Nat) (e : Int) : Nat :=
  let below := commonScale i.centre i.unit d e
  let above := commonScale i.centre i.unit (d + 1) e
  -- The number lies between the neighbours, so both differences are true differences.
  let down := below.1 - below.2
  let up := above.2 - above.1
  if down < up then d else if up < down then d + 1 else if d % 2 = 0 then d else d + 1

/-! ## §3 The search -/

/-- The best decimal on the grid `10^e`, where `d` is the grid neighbour below the number. -/
def Interval.onGrid? (i : Interval) (d : Nat) (e : Int) : Option Scientific :=
  match i.contains d e, i.contains (d + 1) e with
  | true, true => some ⟨i.nearer d e, e⟩
  | true, false => some ⟨d, e⟩
  | false, true => some ⟨d + 1, e⟩
  | false, false => none

/-- The grid neighbour below the number on the grid `10^e`. -/
def Interval.floorOnGrid (i : Interval) (e : Int) : Nat :=
  let scaled := commonScale i.centre i.unit 1 e
  scaled.1 / scaled.2

/-- Try the grids from `10^e` on towards finer ones, at most `count` of them. -/
def Interval.search (i : Interval) : (count : Nat) → (e : Int) → Scientific
  -- Never reached from `shortest`, which tries seventeen grids.
  | 0, e => ⟨i.floorOnGrid e, e⟩
  | count + 1, e => (i.onGrid? (i.floorOnGrid e) e).getD (i.search count (e - 1))

/-- The decimal without trailing zeros among its digits. -/
def Scientific.normal (d : Scientific) : Scientific :=
  if h : d.digits ≠ 0 ∧ d.digits % 10 = 0 then
    Scientific.normal ⟨d.digits / 10, d.exponent + 1⟩
  else d
  termination_by d.digits
  decreasing_by exact Nat.div_lt_self (Nat.pos_of_ne_zero h.1) (by decide)

/-- The shortest decimal that rounds to the number with this rank. -/
def shortest (rank : Nat) : Scientific :=
  if rank = 0 then ⟨0, 0⟩
  else
    let x := ratioOfRank rank
    ((intervalOfRank rank).search 17 (floorLogTen x.1 x.2)).normal

end ListQuery.Decimal
