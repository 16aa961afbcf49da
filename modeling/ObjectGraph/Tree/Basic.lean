import ObjectGraph.Handle
import ObjectGraph.Tree.Operator

/-!
# Typed trees

The expressions and statements of method bodies and property initializers, each with the static
type that lowering gave it. Evaluation reduces expressions in place until they are terminal: an
instance, a confirmed absence, or a function. So the syntax also has forms that no program text
has, such as a reference to an instance or an expression bound to a scope.
-/

namespace ObjectGraph

/-- The value of a scalar literal. -/
inductive Scalar where
  | int (value : Int64)
  | float (value : Float)
  | string (value : String)
  | bool (value : Bool)

/-- The type of a scalar. -/
def Scalar.ty : Scalar → TypeId
  | .int _ => .int
  | .float _ => .float
  | .string _ => .string
  | .bool _ => .bool

/-- A method: the type that declares it and its position among that type's methods. -/
structure MethodRef where
  /-- The declaring type. -/
  owner : TypeId
  /-- The position in the declaring type's list of methods. -/
  index : Nat
deriving DecidableEq, Repr, Inhabited

/-- The generic arguments of a call: each placeholder with the type it stands for. -/
abbrev TypeArgs := List (TypeId × TypeId)

mutual

/-- An expression. -/
inductive Expr where
  /-- A scalar literal. -/
  | scalar (value : Scalar)
  /-- An array literal. Its array type may mention placeholders that the enclosing call binds. -/
  | array (elements : List Expr) (ty : TypeId)
  /-- A runtime instance. Terminal. -/
  | object (id : InstanceId)
  /-- The receiver of the enclosing method or constructor. -/
  | this (ty : TypeId)
  /-- A parameter of the enclosing method or constructor. -/
  | param (name : String) (ty : TypeId)
  /-- A local variable, or a method's name in scope. -/
  | variable (name : String) (ty : TypeId)
  /-- A property or method of an object. -/
  | member (object : Expr) (name : String) (ty : TypeId)
  /-- An element of an object. -/
  | index (object index : Expr) (ty : TypeId)
  /-- A binary operation. -/
  | binary (op : BinaryOp) (lhs rhs : Expr) (ty : TypeId)
  /-- A unary operation. -/
  | unary (op : UnaryOp) (operand : Expr) (ty : TypeId)
  /-- A new instance of a class. -/
  | new (cls : TypeId) (args : List Expr)
  /-- A call, with the generic arguments inferred for it. -/
  | call (callee : Expr) (args : List Expr) (typeArgs : TypeArgs) (ty : TypeId)
  /-- The answer of a host hook about an instance. -/
  | hooked (operand : Expr) (hook : HookId) (ty : TypeId)
  /-- The eventual result of host work. -/
  | promise (id : PromiseId) (ty : TypeId)
  /-- Confirmed absence of a value, as against a result still to come. Terminal. -/
  | missing (ty : TypeId)
  /-- An expression bound to a scope. -/
  | scoped (scope : ScopeId) (body : Expr)
  /-- The statements of a method body that are still to run. -/
  | block (stmts : List Stmt) (result : TypeId)
  /-- A method as declared, without a receiver. Terminal. -/
  | unbound (method : MethodRef)
  /-- A method with its receiver. Terminal. -/
  | function (method : MethodRef) (receiver : InstanceId)

/-- A statement of a method body. -/
inductive Stmt where
  /-- Runs one of two lists of statements. -/
  | branch (cond : Expr) (whenTrue whenFalse : List Stmt)
  /-- Ends the body with a value. -/
  | result (value : Expr)
  /-- Declares a local variable. -/
  | declare (name : String) (ty : TypeId) (init : Expr)
  /-- Assigns to a name in scope. -/
  | assign (name : String) (value : Expr)

end

instance : Inhabited Expr := ⟨.missing .any⟩
instance : Inhabited Stmt := ⟨.result default⟩

/-- A method body: its statements and its declared result type. -/
structure Body where
  /-- The statements, in order. -/
  stmts : List Stmt
  /-- The type of the result. -/
  result : TypeId

namespace Expr

/-- An integer literal. -/
def int (value : Int64) : Expr := .scalar (.int value)
/-- A float literal. -/
def float (value : Float) : Expr := .scalar (.float value)
/-- A text literal. -/
def string (value : String) : Expr := .scalar (.string value)
/-- A truth literal. -/
def bool (value : Bool) : Expr := .scalar (.bool value)

/-- Whether no reduction can change the node's value. -/
def isTerminal : Expr → Bool
  | .object _ | .missing _ | .unbound _ | .function _ _ => true
  | _ => false

/-- The instance that the expression is, if it is one. -/
def asObject : Expr → Option InstanceId
  | .object id => some id
  | _ => none

/-- The instance that a terminal expression refers to: itself, or a function's receiver. -/
def referent : Expr → Option InstanceId
  | .object id => some id
  | .function _ receiver => some receiver
  | _ => none

/-- The type that lowering recorded on the node. Instances and functions carry none: theirs is
known to the runtime and the registry. A scope is transparent. -/
def declaredTy : Expr → Option TypeId
  | .scalar value => some value.ty
  | .array _ ty | .this ty | .param _ ty | .variable _ ty | .member _ _ ty | .index _ _ ty
  | .binary _ _ _ ty | .unary _ _ ty | .call _ _ _ ty | .hooked _ _ ty | .promise _ ty
  | .missing ty => some ty
  | .new cls _ => some cls
  | .block _ result => some result
  | .scoped _ body => body.declaredTy
  | .object _ | .unbound _ | .function _ _ => none

/-- Binds an expression to the scope it was written in, before it moves elsewhere. Terminal
expressions mean the same everywhere and stay as they are. -/
def closeOver (scope : Option ScopeId) (e : Expr) : Expr :=
  match scope with
  | some s => if e.isTerminal then e else .scoped s e
  | none => e

end Expr

end ObjectGraph
