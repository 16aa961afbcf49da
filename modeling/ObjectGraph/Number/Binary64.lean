/-!
# Binary floating point numbers taken apart

A finite binary64 number is a sign, a whole mantissa and a power of two. `Binary64.ofFloat` reads
the three from the bits of a float, so that exact integer arithmetic can be done on them, and
`remainder` computes the remainder of a truncated division that way.
-/

namespace ObjectGraph

/-- A finite number `± mantissa · 2 ^ exponent`. -/
structure Binary64 where
  /-- Whether the sign bit is set, as it is for `-0.0`. -/
  negative : Bool
  /-- The whole mantissa, below `2 ^ 53`. -/
  mantissa : Nat
  /-- The power of two, at least `-1074`. -/
  exponent : Int
deriving DecidableEq, Repr

namespace Binary64

/-- The least exponent, which all subnormal numbers have. -/
def minExponent : Int := -1074

/-- The mantissa of a power of two, below which the gap to the next number is halved. -/
def hiddenBit : Nat := Nat.pow 2 52

/-- The parts that the 64 bits `bits` encode, if they encode a finite number. A biased exponent
of zero marks the subnormal numbers, which lack the hidden bit. -/
def ofBits (bits : Nat) : Option Binary64 :=
  let fraction := bits % hiddenBit
  let biased := bits / hiddenBit % 2048
  let negative := bits / hiddenBit / 2048 % 2 == 1
  if biased = 2047 then none
  else if biased = 0 then some ⟨negative, fraction, minExponent⟩
  else some ⟨negative, hiddenBit + fraction, minExponent + (biased - 1 : Nat)⟩

/-- The parts of a finite float; none for an infinity or not-a-number. -/
def ofFloat (x : Float) : Option Binary64 := ofBits x.toBits.toNat

/-- The float with the given parts, exact whenever such a float exists and the mantissa is below
`2 ^ 53`. -/
def toFloat (b : Binary64) : Float :=
  let magnitude := Float.scaleB (Float.ofNat b.mantissa) b.exponent
  if b.negative then -magnitude else magnitude

/-- The remainder of `a` by `b` with the sign of `a`. Both mantissas are brought to the smaller
of the two exponents, where the remainder of the whole numbers is exact. -/
def remainder (a b : Binary64) : Binary64 :=
  let exponent := min a.exponent b.exponent
  let scaled (x : Binary64) : Nat := x.mantissa * Nat.pow 2 (x.exponent - exponent).toNat
  ⟨a.negative, scaled a % scaled b, exponent⟩

end Binary64

/-- The remainder of a truncated division, with the dividend's sign. It is exact for finite
operands with a divisor other than zero; a finite number leaves itself as the remainder of an
infinity, and all else gives not-a-number. -/
def floatRemainder (x y : Float) : Float :=
  match Binary64.ofFloat x, Binary64.ofFloat y with
  | some a, some b => if b.mantissa = 0 then 0.0 / 0.0 else (a.remainder b).toFloat
  | some _, none => if y.isNaN then y else x
  | none, _ => 0.0 / 0.0

end ObjectGraph
