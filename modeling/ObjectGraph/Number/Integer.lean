/-!
# Integers of 64 bits

Arithmetic that refuses to wrap: each operation is done on whole numbers and answers only when
the result fits. Division truncates toward zero and the remainder has the dividend's sign, so the
one quotient that does not fit, the least integer by `-1`, is refused for the remainder too.
-/

namespace ObjectGraph.Integer

/-- The 64-bit integer with the given value, if there is one. -/
def ofInt? (n : Int) : Option Int64 :=
  if Int64.minValue.toInt ≤ n ∧ n ≤ Int64.maxValue.toInt then some (Int64.ofInt n) else none

/-- The sum, if it fits. -/
def add? (a b : Int64) : Option Int64 := ofInt? (a.toInt + b.toInt)

/-- The difference, if it fits. -/
def sub? (a b : Int64) : Option Int64 := ofInt? (a.toInt - b.toInt)

/-- The product, if it fits. -/
def mul? (a b : Int64) : Option Int64 := ofInt? (a.toInt * b.toInt)

/-- The quotient truncated toward zero, if the divisor is not zero and the quotient fits. -/
def div? (a b : Int64) : Option Int64 :=
  if b = 0 then none else ofInt? (a.toInt.tdiv b.toInt)

/-- The remainder of the truncated division, if the quotient exists. -/
def rem? (a b : Int64) : Option Int64 :=
  (div? a b).bind fun _ => ofInt? (a.toInt.tmod b.toInt)

/-- The negation, if it fits. -/
def neg? (a : Int64) : Option Int64 := ofInt? (-a.toInt)

/-- The decimal digits, after a minus sign where the integer is negative. -/
def text (a : Int64) : String := toString a.toInt

end ObjectGraph.Integer
