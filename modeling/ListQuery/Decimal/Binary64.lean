/-!
# Binary floating point numbers of 64 bits

A finite number of this format is `m · 2^q` with a significand `m` below `2^53` and an exponent
`q` from `-1074` to `971`. Ordered by size, the non-negative ones are numbered from zero, and this
number is their *rank*: below `2^52` it is the significand of a subnormal number, and above that
every `2^52` ranks share one exponent. A `Binary64` is a sign and a rank, so it has exactly one
form and equality is equality of the two.

Everything is computed in exact integer arithmetic, with one rounding rule, `nearestRank`: the
nearest representable number, a tie going to the even significand.
-/

namespace ListQuery.Decimal

open Nat (pow)

/-! ## §1 The format -/

/-- The least rank that no finite number has. -/
def rankLimit : Nat := 2047 * pow 2 52

structure Binary64 where
  negative : Bool
  rank : Nat
  finite : rank < rankLimit
  deriving DecidableEq

/-- The significand of the number with this rank. -/
def significand (rank : Nat) : Nat :=
  if rank < pow 2 52 then rank else pow 2 52 + rank % pow 2 52

/-- The binary exponent of the number with this rank. -/
def binaryExponent (rank : Nat) : Int :=
  if rank < pow 2 52 then -1074 else (rank / pow 2 52 : Nat) - 1075

/-- The number with this rank as a numerator over a denominator. -/
def ratioOfRank (rank : Nat) : Nat × Nat :=
  let q := binaryExponent rank
  (significand rank * pow 2 q.toNat, pow 2 (-q).toNat)

/-! ## §2 Rounding -/

/-- The quotient rounded to the nearest integer, a half going to the even neighbour. -/
def roundDiv (num den : Nat) : Nat :=
  let quotient := num / den
  let twice := 2 * (num % den)
  if twice < den ∨ (twice = den ∧ quotient % 2 = 0) then quotient else quotient + 1

/-- The greatest `k` with `2^k ≤ num / den`, for positive `num` and `den`. -/
def floorLog (num den : Nat) : Int :=
  -- The binary logarithms are off by at most one.
  let k : Int := (num.log2 : Int) - den.log2
  if num * pow 2 (-k).toNat < den * pow 2 k.toNat then k - 1 else k

/-- The rank of the number nearest to `num / den`. It reaches `rankLimit` when the quotient is
    too large for the format. -/
def nearestRank (num den : Nat) : Nat :=
  if num = 0 then 0
  else
    -- The exponent that leaves 53 bits, or the least one, which leaves a subnormal number fewer.
    let q := max (floorLog num den - 52) (-1074)
    roundDiv (num * pow 2 (-q).toNat) (den * pow 2 q.toNat) + (q + 1074).toNat * pow 2 52

/-! ## §3 Arithmetic on ranks -/

/-- The rank of `10^n`, for `n` up to 308. -/
def tenPower (n : Nat) : Nat :=
  nearestRank (pow 10 n) 1

/-- The product, rounded. -/
def mulRank (a b : Nat) : Nat :=
  let x := ratioOfRank a
  let y := ratioOfRank b
  nearestRank (x.1 * y.1) (x.2 * y.2)

/-- The quotient, rounded, for a positive divisor. -/
def divRank (a b : Nat) : Nat :=
  let x := ratioOfRank a
  let y := ratioOfRank b
  nearestRank (x.1 * y.2) (x.2 * y.1)

/-- Division by `10^n` in steps of at most 308 places, each of them rounded. -/
def divTenPower (a n : Nat) : Nat :=
  if n ≤ 308 then divRank a (tenPower n)
  else if a = 0 then 0
  else divTenPower (divRank a (tenPower 308)) (n - 308)
  termination_by n

/-- Reading `digits · 10^exponent`: the digits are rounded to the format, and then multiplied or
    divided by the power of ten. `none` when the result is too large. -/
def readRank (digits : Nat) (exponent : Int) : Option Nat :=
  let a := nearestRank digits 1
  if exponent < 0 then some (divTenPower a (-exponent).toNat)
  else if exponent ≤ 308 then
    let r := mulRank a (tenPower exponent.toNat)
    if r < rankLimit then some r else none
  -- No power of ten of the format is large enough, but zero stays zero.
  else if a = 0 then some 0
  else none

/-- The number `± digits · 10^exponent` in this format, if it has one. -/
def Binary64.ofParts? (negative : Bool) (digits : Nat) (exponent : Int) : Option Binary64 :=
  match readRank digits exponent with
  | none => none
  | some rank => if h : rank < rankLimit then some ⟨negative, rank, h⟩ else none

def Binary64.zero (negative : Bool) : Binary64 :=
  ⟨negative, 0, by decide⟩

end ListQuery.Decimal
