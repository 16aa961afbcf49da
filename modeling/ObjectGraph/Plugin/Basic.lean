import ObjectGraph.World

/-!
# Plugins

A plugin says how the instances of a type behave: how members and elements are found, what
operators do, what calls of bodiless methods answer, and what happens when an instance becomes
final. Plugins are found along the lineage of the type, so that a class inherits its parent's.
Types without one behave as plain classes.

An answer of nothing means "not yet": the expression stays as it is and is asked again later.
-/

namespace ObjectGraph

/-- An operator with its operands. Binary operands have one and the same type. -/
inductive Operation where
  | binary (op : BinaryOp) (lhs rhs : InstanceId)
  | unary (op : UnaryOp) (operand : InstanceId)
deriving DecidableEq, Repr

namespace Operation

/-- The operator's name. -/
def symbol : Operation → String
  | .binary op _ _ => op.symbol
  | .unary op _ => op.name

/-- The first operand, whose type decides who computes the operation. -/
def subject : Operation → InstanceId
  | .binary _ lhs _ => lhs
  | .unary _ operand => operand

end Operation

/-- What a call of a bodiless method comes to. -/
inductive CallOutcome where
  /-- An input is not ready. -/
  | deferred
  /-- The call answers an expression. -/
  | produced (result : Expr)

variable {σ : Type}

namespace Effect

/-- A member from the instance's own slots: the value of a property once it is terminal, or a
method with the instance as receiver. -/
def resolveSlot (id : InstanceId) (name : String) : Effect σ (Option Expr) := do
  let i ← instanceOf id
  match i.slot? name with
  | some slot => return if slot.expr.isTerminal then some slot.expr else none
  | none =>
    match ← read (·.types.findMethod i.ty name) with
    | some method => return some (.function method id)
    | none => throw (.unknownProperty (← read (·.typeName id)) name)

/-- Fails because a type does not have an operator. -/
def unsupported {α : Type} (operation : Operation) : Effect σ α := do
  throw (.unsupportedOperator operation.symbol (← read (·.typeName operation.subject)))

/-- The operators that every instance has: whether two are one and the same, or not. -/
def identityOperator : Operation → Effect σ (Option Expr)
  | .binary .eq lhs rhs => return some (.bool (lhs = rhs))
  | .binary .ne lhs rhs => return some (.bool (lhs ≠ rhs))
  | operation => unsupported operation

end Effect

/-- The behaviour of a type's instances. What a plugin leaves out is as for any instance. -/
structure Plugin (σ : Type) where
  /-- A member of an instance, by name. -/
  property : InstanceId → String → Effect σ (Option Expr) := Effect.resolveSlot
  /-- An element of the first instance, at the index that the second one is. -/
  element : InstanceId → InstanceId → Effect σ (Option Expr) := fun id _ => do
    throw (.unsupportedIndex (← Effect.read (·.typeName id)))
  /-- The result of an operator. -/
  operator : Operation → Effect σ (Option Expr) := Effect.identityOperator
  /-- A call of a bodiless method on a receiver. -/
  call : InstanceId → MethodRef → List Expr → Effect σ CallOutcome := fun _ method _ => do
    throw (.missingMethodBody (← Effect.read (·.types.method method)).name)
  /-- Runs once, when an instance becomes final. -/
  onSeal : InstanceId → Effect σ Unit := fun _ => pure ()

/-- A host callback that answers an expression about an instance. -/
abbrev Hook (σ : Type) := InstanceId → Effect σ Expr

/-- The hook that `toString()` of any object goes through. -/
def toStringHook : HookId := ⟨0⟩

/-- The behaviour of classes without a plugin: the one bodiless method they have is the
`toString` of `any`. -/
def Plugin.plainClass : Plugin σ where
  call receiver method _ := do
    let name := (← Effect.read (·.types.method method)).name
    if method.owner = .any ∧ name = "toString" then
      return .produced (.hooked (.object receiver) toStringHook .string)
    else throw (.missingMethodBody name)

/-- The registered plugins and hooks. -/
structure Natives (σ : Type) where
  /-- The plugins with their types, the latest first. -/
  plugins : List (TypeId × Plugin σ)
  /-- The hooks, at their handles' positions. -/
  hooks : List (Hook σ)

namespace Natives

/-- Gives a type a plugin, in place of any it had. -/
def register (natives : Natives σ) (ty : TypeId) (plugin : Plugin σ) : Natives σ :=
  { natives with plugins := (ty, plugin) :: natives.plugins }

/-- Adds a hook at the next handle. -/
def registerHook (natives : Natives σ) (hook : Hook σ) : HookId × Natives σ :=
  (⟨natives.hooks.length⟩, { natives with hooks := natives.hooks ++ [hook] })

/-- The plugin of the nearest type on a lineage that has one. -/
def nearest? (natives : Natives σ) (types : Registry) (ty : TypeId) : Option (Plugin σ) :=
  (types.lineage ty).findSome? fun t => natives.plugins.lookup t

/-- The plugin that speaks for a type. -/
def pluginFor (natives : Natives σ) (types : Registry) (ty : TypeId) : Plugin σ :=
  (natives.nearest? types ty).getD .plainClass

/-- Whether a type or one of its ancestors has a plugin. -/
def hasPlugin (natives : Natives σ) (types : Registry) (ty : TypeId) : Bool :=
  (natives.nearest? types ty).isSome

end Natives

/-- The plugin that speaks for a type, in the present world. -/
def Effect.pluginFor (natives : Natives σ) (ty : TypeId) : Effect σ (Plugin σ) :=
  Effect.read fun w => natives.pluginFor w.types ty

end ObjectGraph
