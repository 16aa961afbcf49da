import ObjectGraph.Check.Assignable
import ObjectGraph.Check.TypeError
import ObjectGraph.Types.Shape

/-!
# Checking sites

A site is a place in a program where types must agree. Each check answers the type of its site.
A check that fails records one error and answers a new poison type, and a check that is given
poison answers poison and records nothing, since the cause was reported where the poison arose.
-/

namespace ObjectGraph

/-- The types known so far and the errors found so far. -/
structure Checker where
  /-- The registered types. -/
  types : Registry
  /-- The errors, in the order in which they were found. -/
  errors : List TypeError

/-- A step of checking. -/
abbrev Checking := StateM Checker

/-- What a checked call gives. -/
structure CallCheck where
  /-- The type of the call's result. -/
  result : TypeId
  /-- The generic arguments, in declaration order; none if the call failed to check. -/
  typeArgs : TypeArgs
deriving DecidableEq, Repr

/-- The argument that made a call fail: its position, its type, the type of its parameter, and the
bindings at that point. -/
structure ArgumentFault where
  /-- The position among the arguments, from zero. -/
  index : Nat
  /-- The argument's type. -/
  arg : TypeId
  /-- The parameter's declared type. -/
  param : TypeId
  /-- What had been inferred. -/
  bindings : Bindings

/-- The result type of an operator on two operands of one type, where it has one. -/
def BinaryOp.resultOn (op : BinaryOp) (ty : TypeId) : Option TypeId :=
  let numeric := ty = .int ∨ ty = .float
  match op with
  | .add => if numeric ∨ ty = .string then some ty else none
  | .sub | .mul | .div | .rem => if numeric then some ty else none
  | .eq | .ne => some .bool
  | .lt | .le | .gt | .ge => if numeric ∨ ty = .string then some .bool else none
  | .and | .or => if ty = .bool then some .bool else none

/-- The result type of a unary operator, where it has one. Anything can be reflected. -/
def UnaryOp.resultOn (op : UnaryOp) (ty : TypeId) : Option TypeId :=
  match op with
  | .neg => if ty = .int ∨ ty = .float then some ty else none
  | .not => if ty = .bool then some ty else none
  | .typeOf => some .type

/-- Compares arguments with parameters from the left, inferring as it goes. Arguments with poison
in them are passed over. -/
def Registry.inferArgs (r : Registry) :
    Nat → List (TypeId × TypeId) → Bindings → Except ArgumentFault Bindings
  | _, [], b => .ok b
  | index, (arg, param) :: rest, b =>
    if r.containsPoison arg then r.inferArgs (index + 1) rest b
    else
      match r.infer arg param b with
      | (true, b) => r.inferArgs (index + 1) rest b
      | (false, b) => .error ⟨index, arg, param, b⟩

namespace Checker

/-- A checker that has found nothing yet. -/
def ofTypes (types : Registry) : Checker := ⟨types, []⟩

/-- Lets a step register types. -/
def registering {α : Type} (step : Registering α) : Checking α := fun c =>
  let (value, types) := step c.types
  (value, { c with types })

/-- Records an error and answers the poison type for its site. -/
def report (error : TypeError) : Checking TypeId := do
  modify fun c => { c with errors := c.errors ++ [error] }
  registering Registry.newPoison

/-- The type that a site with poison among its inputs gets. That is the first input that is
poison, or a new poison type if poison only occurs inside of shapes. -/
def propagate (inputs : List TypeId) : Checking (Option TypeId) := do
  let types := (← get).types
  match inputs.find? types.isPoison with
  | some poison => return some poison
  | none =>
    if inputs.any types.containsPoison then return some (← registering Registry.newPoison)
    else return none

/-- Makes array types around a type, as many as `depth`. -/
def nestArrays : Nat → TypeId → Checking TypeId
  | 0, ty => pure ty
  | depth + 1, ty => do nestArrays depth (← registering (Registry.arrayOf ty))

/-- The type that a written name stands for. Each pair of brackets at the end makes an array type
around what is before it. An unknown name is reported once, and the arrays are made of poison. -/
def resolveTypeName (name : String) (loc : Location) : Checking TypeId := do
  let (base, depth) := splitBrackets name
  match (← get).types.find? base with
  | some ty => nestArrays depth ty
  | none => nestArrays depth (← report (.unknownType base loc))

/-- Declares a class, whose name must be new. -/
def declareClass (name : String) (parent : Option TypeId) (loc : Location) : Checking TypeId := do
  match (← get).types.declareClass name parent with
  | .ok (ty, types) =>
    modify fun c => { c with types }
    return ty
  | .error (.duplicate name) => report (.duplicateType name loc)
  | .error (.notFound name) => report (.unknownType name loc)

/-- Checks that a value may flow into a slot, and answers the slot's type. -/
def checkAssignment (value target : TypeId) (origin : Origin) : Checking TypeId := do
  if (← propagate [value, target]).isSome then return target
  let types := (← get).types
  if types.assignable value target then return target
  report (.mismatch (types.name target) (types.name value) origin)

/-- Checks a result against the method's declared type. -/
def checkResult (value declared : TypeId) (loc : Location) : Checking TypeId :=
  checkAssignment value declared (.result loc)

/-- Checks a call, inferring the method's placeholders from the arguments. The first argument
that does not fit ends the check. The error shows the parameter's type with what had been inferred
by then put in. -/
def checkCall (m : MethodRef) (args : List TypeId) (loc : Location) : Checking CallCheck := do
  let types := (← get).types
  let method := types.method m
  let params := method.params.map (·.ty)
  if params.length ≠ args.length then
    return ⟨← report (.arity params.length args.length loc), []⟩
  match types.inferArgs 0 (args.zip params) (.ofParams method.generics) with
  | .ok bindings =>
    let typeArgs := bindings.resolved
    return ⟨← registering (Registry.substitute (typeArgs.lookup ·) method.result), typeArgs⟩
  | .error fault =>
    let expected ← registering (Registry.substitute (fault.bindings.resolved.lookup ·) fault.param)
    let types := (← get).types
    let origin := .argument loc fault.index
    return ⟨← report (.mismatch (types.name expected) (types.name fault.arg) origin), []⟩

/-- The type of a member: a property's type, or the function type of a method. -/
def checkMember (object : TypeId) (member : String) (loc : Location) : Checking TypeId := do
  let types := (← get).types
  if types.isPoison object then return object
  if let some (_, property) := types.findProperty object member then return property.ty
  if let some method := types.findMethod object member then
    return ← registering (Registry.methodType method)
  if let some poison ← propagate [object] then return poison
  report (.noSuchMember (types.name object) member loc)

/-- The type of a binary operation. Both operands must have one and the same type. -/
def checkBinary (op : BinaryOp) (lhs rhs : TypeId) (loc : Location) : Checking TypeId := do
  if let some poison ← propagate [lhs, rhs] then return poison
  if lhs = rhs then
    if let some result := op.resultOn lhs then return result
  let types := (← get).types
  report (.invalidOperator op.symbol (types.name lhs) (some (types.name rhs)) loc)

/-- The type of a unary operation. Reflection takes whatever type the operand has, poison
included. -/
def checkUnary (op : UnaryOp) (operand : TypeId) (loc : Location) : Checking TypeId := do
  if op = .typeOf then return .type
  if let some poison ← propagate [operand] then return poison
  match op.resultOn operand with
  | some result => return result
  | none => report (.invalidOperator op.name ((← get).types.name operand) none loc)

end Checker

end ObjectGraph
