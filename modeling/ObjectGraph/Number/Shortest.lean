import ObjectGraph.Number.Binary64

/-!
# The fewest digits that identify a float

Every float stands for an interval of reals: those that round to it. The shortest decimal for the
float is a point of that interval on the coarsest grid of powers of ten that has one. The value's
two neighbours on a grid are its only candidates there, because any other point of the grid lies
farther out. All comparisons are between natural numbers, so nothing is rounded on the way.
-/

namespace ObjectGraph

/-- The positive decimal `digits · 10 ^ exponent`. -/
structure Decimal where
  /-- The significant digits as a number. -/
  digits : Nat
  /-- The power of ten of the last digit. -/
  exponent : Int
deriving DecidableEq, Repr, Inhabited

/-- Which neighbour is taken when the value lies exactly halfway between two. -/
inductive Tie where
  /-- The larger. -/
  | up
  /-- The one whose last digit is even. -/
  | even
deriving DecidableEq, Repr

namespace Shortest

/-- The interval of reals that round to a float, in units of a quarter of its last place. -/
structure Interval where
  /-- The lower end. -/
  low : Nat
  /-- The float's own value. -/
  value : Nat
  /-- The upper end. -/
  high : Nat
  /-- Whether the two ends round to the float as well. -/
  closed : Bool
  /-- The power of two of the unit. -/
  exponent : Int
deriving Repr

/-- The interval of `mantissa · 2 ^ exponent`. Halfway cases go to even mantissas. Below a power
of two the neighbouring floats are twice as dense, except at the least exponent. -/
def interval (mantissa : Nat) (exponent : Int) : Interval where
  low :=
    if mantissa = Binary64.hiddenBit ∧ exponent ≠ Binary64.minExponent then 4 * mantissa - 1
    else 4 * mantissa - 2
  value := 4 * mantissa
  high := 4 * mantissa + 2
  closed := mantissa % 2 == 0
  exponent := exponent - 2

/-- The shortest candidate on the grid of multiples of `10 ^ grid`, if one lies in the interval.
A multiple `d` is compared with a bound `x` as `d · den` with `x · num`. -/
def onGrid (i : Interval) (tie : Tie) (grid : Int) : Option Decimal :=
  let num := Nat.pow 2 i.exponent.toNat * Nat.pow 10 (-grid).toNat
  let den := Nat.pow 2 (-i.exponent).toNat * Nat.pow 10 grid.toNat
  let inside (d : Nat) : Bool :=
    if i.closed then i.low * num ≤ d * den && d * den ≤ i.high * num
    else i.low * num < d * den && d * den < i.high * num
  let below := i.value * num / den
  let above := below + 1
  let toBelow := i.value * num - below * den
  let toAbove := above * den - i.value * num
  let preferAbove : Bool :=
    toAbove < toBelow || (toAbove == toBelow && (tie = .up || below % 2 == 1))
  match inside below && below != 0, inside above with
  | true, true => some ⟨if preferAbove then above else below, grid⟩
  | true, false => some ⟨below, grid⟩
  | false, true => some ⟨above, grid⟩
  | false, false => none

/-- The candidate on the coarsest of the grids `10 ^ grid`, `10 ^ (grid - 1)`, … that has one,
among the first `count`. -/
def search (i : Interval) (tie : Tie) : Nat → Int → Option Decimal
  | 0, _ => none
  | count + 1, grid =>
    match onGrid i tie grid with
    | some d => some d
    | none => search i tie count (grid - 1)

end Shortest

/-- The shortest decimal that rounds to `mantissa · 2 ^ exponent`. The search starts at the first
power of ten that is certainly above the value, and seventeen digits always suffice. -/
def shortest (tie : Tie) (mantissa : Nat) (exponent : Int) : Decimal :=
  let bits : Int := exponent + (Nat.log2 mantissa + 1 : Nat)
  let start := bits * 30103 / 100000 + 1
  (Shortest.search (Shortest.interval mantissa exponent) tie 22 start).getD default

end ObjectGraph
