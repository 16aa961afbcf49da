import ObjectGraph.Number.Binary64
import ObjectGraph.Plugin.Basic

/-!
# Plugins of the scalar types

The operators of integers, floats, texts and truth values. Results are literals, which the next
sweep turns into instances. Integers never wrap: a result that does not fit is an error, and so is
a division by zero, for floats as well.
-/

namespace ObjectGraph

variable {σ : Type}

namespace Effect

/-- The integer that an instance carries. -/
def intOf (id : InstanceId) : Effect σ Int64 := do
  match (← instanceOf id).payload with
  | .scalar (.int value) => return value
  | _ => invalidPayload id "int"

/-- The float that an instance carries. -/
def floatOf (id : InstanceId) : Effect σ Float := do
  match (← instanceOf id).payload with
  | .scalar (.float value) => return value
  | _ => invalidPayload id "float"

/-- The text that an instance carries. -/
def stringOf (id : InstanceId) : Effect σ String := do
  match (← instanceOf id).payload with
  | .scalar (.string value) => return value
  | _ => invalidPayload id "string"

/-- The truth value that an instance carries. -/
def boolOf (id : InstanceId) : Effect σ Bool := do
  match (← instanceOf id).payload with
  | .scalar (.bool value) => return value
  | _ => invalidPayload id "bool"

/-- An integer result that must fit. -/
def checked (op : String) : Option Int64 → Effect σ (Option Expr)
  | some value => return some (.int value)
  | none => throw (.overflow op)

end Effect

/-- How two floats compare. Not-a-number compares with nothing. -/
def floatOrdering? (a b : Float) : Option Ordering :=
  if a < b then some .lt else if a == b then some .eq else if b < a then some .gt else none

/-- What a comparison says of two floats. Only "not equal" holds of values that do not compare. -/
def BinaryOp.onFloats (op : BinaryOp) (a b : Float) : Option Bool :=
  match floatOrdering? a b with
  | some ordering => op.ofOrdering ordering
  | none => if op.isComparison then some (op = .ne) else none

namespace Plugin

/-- A comparison's answer as a literal; operators that do not compare are not supported. -/
def comparison (operation : Operation) : Option Bool → Effect σ (Option Expr)
  | some answer => return some (.bool answer)
  | none => Effect.unsupported operation

/-- The operators of integers. -/
def intOperator : Operation → Effect σ (Option Expr)
  | .binary op lhs rhs => do
    let a ← Effect.intOf lhs
    let b ← Effect.intOf rhs
    match op with
    | .add => Effect.checked op.symbol (Integer.add? a b)
    | .sub => Effect.checked op.symbol (Integer.sub? a b)
    | .mul => Effect.checked op.symbol (Integer.mul? a b)
    | .div =>
      if b = 0 then throw .divisionByZero else Effect.checked op.symbol (Integer.div? a b)
    | .rem =>
      if b = 0 then throw .divisionByZero else Effect.checked op.symbol (Integer.rem? a b)
    | op => comparison (.binary op lhs rhs) (op.ofOrdering (compare a.toInt b.toInt))
  | .unary .neg operand => do
    Effect.checked UnaryOp.neg.symbol (Integer.neg? (← Effect.intOf operand))
  | operation => Effect.unsupported operation

/-- The operators of floats. -/
def floatOperator : Operation → Effect σ (Option Expr)
  | .binary op lhs rhs => do
    let a ← Effect.floatOf lhs
    let b ← Effect.floatOf rhs
    match op with
    | .add => return some (.float (a + b))
    | .sub => return some (.float (a - b))
    | .mul => return some (.float (a * b))
    | .div => if b == 0 then throw .divisionByZero else return some (.float (a / b))
    | .rem => if b == 0 then throw .divisionByZero else return some (.float (floatRemainder a b))
    | op => comparison (.binary op lhs rhs) (op.onFloats a b)
  | .unary .neg operand => do return some (.float (-(← Effect.floatOf operand)))
  | operation => Effect.unsupported operation

/-- The operators of texts: joining, and comparison by code point. -/
def stringOperator : Operation → Effect σ (Option Expr)
  | .binary op lhs rhs => do
    let a ← Effect.stringOf lhs
    let b ← Effect.stringOf rhs
    match op with
    | .add => return some (.string (a ++ b))
    | op => comparison (.binary op lhs rhs) (op.ofOrdering (compare a b))
  | operation => Effect.unsupported operation

/-- The operators of truth values. -/
def boolOperator : Operation → Effect σ (Option Expr)
  | .binary op lhs rhs => do
    let a ← Effect.boolOf lhs
    let b ← Effect.boolOf rhs
    match op with
    | .and => return some (.bool (a && b))
    | .or => return some (.bool (a || b))
    | .eq => return some (.bool (a == b))
    | .ne => return some (.bool (a != b))
    | op => Effect.unsupported (.binary op lhs rhs)
  | .unary .not operand => do return some (.bool (!(← Effect.boolOf operand)))
  | operation => Effect.unsupported operation

/-- Integers. -/
def int : Plugin σ where
  operator := intOperator

/-- Floats. -/
def float : Plugin σ where
  operator := floatOperator

/-- Texts, whose length is their number of characters. -/
def string : Plugin σ where
  property id name := do
    if name = "length" then return some (.int (.ofNat (← Effect.stringOf id).length))
    else Effect.resolveSlot id name
  operator := stringOperator

/-- Truth values. -/
def bool : Plugin σ where
  operator := boolOperator

end Plugin

end ObjectGraph
