/-!
# Reading floats

A float is written as an optional sign followed by digits with an optional point and an optional
exponent, or by the words `inf`, `infinity` and `nan` in any case. At least one digit stands
before or after the point. The result is the float nearest to the exact decimal value.
-/

namespace ObjectGraph

namespace NumberText

/-- The leading ASCII digits of a text and what follows them. -/
def spanDigits (cs : List Char) : List Char × List Char := cs.span Char.isDigit

/-- The number that a list of ASCII digits denotes. -/
def digitsValue (cs : List Char) : Nat :=
  cs.foldl (fun n c => 10 * n + (c.toNat - '0'.toNat)) 0

/-- An optional sign: whether it is a minus, and what follows. -/
def takeSign : List Char → Bool × List Char
  | '-' :: cs => (true, cs)
  | '+' :: cs => (false, cs)
  | cs => (false, cs)

/-- An exponent that takes up the whole text: a mark, an optional sign and digits. An absent one
is zero. -/
def exponent? : List Char → Option Int
  | [] => some 0
  | c :: cs =>
    if c = 'e' ∨ c = 'E' then
      let (negative, cs) := takeSign cs
      let (digits, rest) := spanDigits cs
      if digits.isEmpty || !rest.isEmpty then none
      else
        let n : Int := digitsValue digits
        some (if negative then -n else n)
    else none

/-- The float nearest to `digits · 10 ^ exponent`. Beyond the range of floats the power of ten is
not computed: such a value is zero or infinite. -/
def nearest (digits : Nat) (exponent : Int) : Float :=
  let power := exponent + (Nat.repr digits).length
  if digits = 0 ∨ power < -400 then 0.0
  else if 400 < power then 1.0 / 0.0
  else Float.ofScientific digits (exponent < 0) exponent.natAbs

/-- An unsigned number in digits. -/
def decimal? (cs : List Char) : Option Float :=
  let (whole, rest) := spanDigits cs
  let (fraction, rest) :=
    match rest with
    | '.' :: rest => spanDigits rest
    | _ => ([], rest)
  if whole.isEmpty && fraction.isEmpty then none
  else (exponent? rest).map fun e => nearest (digitsValue (whole ++ fraction)) (e - fraction.length)

end NumberText

/-- The float that a text denotes, if it denotes one. -/
def readFloat? (text : String) : Option Float :=
  let (negative, cs) := NumberText.takeSign text.toList
  let magnitude :=
    match String.ofList (cs.map Char.toLower) with
    | "inf" | "infinity" => some (1.0 / 0.0)
    | "nan" => some (0.0 / 0.0)
    | _ => NumberText.decimal? cs
  magnitude.map fun x => if negative then -x else x

end ObjectGraph
