/-!
# Operators

The binary and unary operators of expressions and their symbols.
-/

namespace ObjectGraph

/-- An operator with two operands. -/
inductive BinaryOp where
  | add
  | sub
  | mul
  | div
  | rem
  | eq
  | ne
  | lt
  | le
  | gt
  | ge
  | and
  | or
deriving DecidableEq, Repr

namespace BinaryOp

/-- Every binary operator: arithmetic, comparison, then logic. -/
def all : List BinaryOp := [add, sub, mul, div, rem, eq, ne, lt, le, gt, ge, and, or]

/-- The operator as it is written. -/
def symbol : BinaryOp → String
  | add => "+"
  | sub => "-"
  | mul => "*"
  | div => "/"
  | rem => "%"
  | eq => "=="
  | ne => "!="
  | lt => "<"
  | le => "<="
  | gt => ">"
  | ge => ">="
  | and => "&&"
  | or => "||"

/-- Whether the operator compares its operands. -/
def isComparison : BinaryOp → Bool
  | eq | ne | lt | le | gt | ge => true
  | _ => false

/-- What a comparison says of two values in the given order. None for the other operators. -/
def ofOrdering (op : BinaryOp) (ordering : Ordering) : Option Bool :=
  match op with
  | eq => some (ordering == .eq)
  | ne => some (ordering != .eq)
  | lt => some (ordering == .lt)
  | le => some (ordering != .gt)
  | gt => some (ordering == .gt)
  | ge => some (ordering != .lt)
  | _ => none

end BinaryOp

/-- An operator with one operand. -/
inductive UnaryOp where
  /-- Arithmetic negation. -/
  | neg
  /-- Logical negation. -/
  | not
  /-- Reflection of the operand's static type. The operand is never evaluated. -/
  | typeOf
deriving DecidableEq, Repr

namespace UnaryOp

/-- Every unary operator. -/
def all : List UnaryOp := [neg, not, typeOf]

/-- The operator as it is written before its operand: `typeof` is a word and needs a space. -/
def symbol : UnaryOp → String
  | neg => "-"
  | not => "!"
  | typeOf => "typeof "

/-- The operator's name, without a space. -/
def name : UnaryOp → String
  | neg => "-"
  | not => "!"
  | typeOf => "typeof"

end UnaryOp

end ObjectGraph
