import ObjectGraph.Number.Shortest

/-!
# How numbers are written

The digits of a float are always its shortest ones. How they are laid out differs by the reader:
source-like text, text shown to people and JSON each have a record of layout decisions here.
-/

namespace ObjectGraph

/-- The layout of a float's text. -/
structure NumberNotation where
  /-- The least and greatest power of ten of the first digit that are written positionally; none
  when every number is. -/
  positional : Option (Int × Int)
  /-- Whether a whole number written positionally ends in `.0`. -/
  pointZero : Bool
  /-- Whether a positive exponent has a sign. -/
  signedExponent : Bool
  /-- The digit taken for a value halfway between two shortest decimals. -/
  tie : Tie

namespace NumberNotation

/-- Literals in printed trees: always a point or an exponent, the latter from `10 ^ 16` on and
below `10 ^ -4`. -/
def literal : NumberNotation := ⟨some (-4, 15), true, false, .up⟩

/-- Text for people: never an exponent, and no point after a whole number. -/
def plain : NumberNotation := ⟨none, false, false, .up⟩

/-- JSON numbers: always a point or a signed exponent, the latter from `10 ^ 16` on and below
`10 ^ -5`. -/
def json : NumberNotation := ⟨some (-5, 15), true, true, .even⟩

/-- Positional digits with the point where `exponent` puts it. -/
def positionalText (pointZero : Bool) (digits : String) (exponent : Int) : String :=
  let whole := digits.length + exponent
  if 0 ≤ exponent then
    digits ++ "".pushn '0' exponent.toNat ++ (if pointZero then ".0" else "")
  else if 0 < whole then
    String.ofList (digits.toList.take whole.toNat) ++ "." ++
      String.ofList (digits.toList.drop whole.toNat)
  else
    "0." ++ "".pushn '0' (-whole).toNat ++ digits

/-- One digit, a point if more digits follow, and the power of ten of the first digit. -/
def exponentText (signedExponent : Bool) (digits : String) (power : Int) : String :=
  let fraction := String.ofList (digits.toList.drop 1)
  String.ofList (digits.toList.take 1) ++ (if fraction.isEmpty then "" else "." ++ fraction) ++
    "e" ++ (if signedExponent && 0 ≤ power then "+" else "") ++ toString power

/-- The text of a positive decimal. -/
def decimalText (layout : NumberNotation) (d : Decimal) : String :=
  let digits := Nat.repr d.digits
  let power := d.exponent + (digits.length - 1 : Nat)
  let positional :=
    match layout.positional with
    | none => true
    | some (least, greatest) => least ≤ power && power ≤ greatest
  if positional then positionalText layout.pointZero digits d.exponent
  else exponentText layout.signedExponent digits power

/-- The text of a float. Zero is written positionally in every layout and keeps its sign. -/
def text (layout : NumberNotation) (x : Float) : String :=
  match Binary64.ofFloat x with
  | none => if x.isNaN then "NaN" else if x < 0 then "-inf" else "inf"
  | some b =>
    (if b.negative then "-" else "") ++
      if b.mantissa = 0 then (if layout.pointZero then "0.0" else "0")
      else layout.decimalText (shortest layout.tie b.mantissa b.exponent)

end NumberNotation

end ObjectGraph
