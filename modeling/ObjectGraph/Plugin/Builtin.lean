import ObjectGraph.Plugin.Scalar

/-!
# Plugins of arrays and reflections, and the built-in set

Arrays have a length, elements by index, and `join`. Reflections have a name and are equal when
they reflect the same type.
-/

namespace ObjectGraph

variable {σ : Type}

namespace Effect

/-- The elements that an array instance carries. -/
def elementsOf (id : InstanceId) : Effect σ (List Expr) := do
  match (← instanceOf id).payload with
  | .array elements => return elements
  | _ => invalidPayload id "array"

/-- The type that a reflection stands for. -/
def typeOf (id : InstanceId) : Effect σ TypeId := do
  match (← instanceOf id).payload with
  | .type ty => return ty
  | _ => invalidPayload id "Type"

end Effect

namespace Plugin

/-- An array's element. An index that is out of range is a confirmed absence. -/
def arrayElement (id index : InstanceId) : Effect σ (Option Expr) := do
  let i ← Effect.intOf index
  let elementTy ← Effect.read fun w => (w.types.element? (w.heap.get id).ty).getD .any
  let elements ← Effect.elementsOf id
  match if 0 ≤ i.toInt then elements[i.toInt.toNat]? else none with
  | none => return some (.missing elementTy)
  | some e => return if e.isTerminal then some e else none

/-- The texts of the elements of a joined array, once each element is a value. An absent element
counts as the empty text. -/
def joinParts (w : World σ) : List Expr → Option (List String)
  | [] => some []
  | .object id :: rest => (joinParts w rest).map (w.shownText id :: ·)
  | .missing _ :: rest => (joinParts w rest).map ("" :: ·)
  | _ => none

/-- Calls on arrays. `join` waits for its separator and for every element. -/
def arrayCall (receiver : InstanceId) (method : MethodRef) (args : List Expr) :
    Effect σ CallOutcome := do
  let name := (← Effect.read (·.types.method method)).name
  if name ≠ "join" then throw (.missingMethodBody name)
  match args.head?.bind Expr.asObject with
  | none => return .deferred
  | some separator =>
    let separator ← Effect.stringOf separator
    let elements ← Effect.elementsOf receiver
    match ← Effect.read (joinParts · elements) with
    | some parts => return .produced (.string (String.intercalate separator parts))
    | none => return .deferred

/-- Arrays. -/
def array : Plugin σ where
  property id name := do
    if name = "length" then return some (.int (.ofNat (← Effect.elementsOf id).length))
    else Effect.resolveSlot id name
  element := arrayElement
  call := arrayCall

/-- Equality of reflections is that of the types they reflect. -/
def typeOperator : Operation → Effect σ (Option Expr)
  | .binary .eq lhs rhs => do
    let a ← Effect.typeOf lhs
    return some (.bool (a = (← Effect.typeOf rhs)))
  | .binary .ne lhs rhs => do
    let a ← Effect.typeOf lhs
    return some (.bool (a ≠ (← Effect.typeOf rhs)))
  | operation => Effect.identityOperator operation

/-- Reflections. -/
def type : Plugin σ where
  property id name := do
    if name = "name" then
      let ty ← Effect.typeOf id
      return some (.string (← Effect.read (·.types.name ty)))
    else Effect.resolveSlot id name
  operator := typeOperator

end Plugin

/-- The hook behind `toString()`: the text of any instance. -/
def textHook : Hook σ := fun id => Effect.read fun w => .string (w.shownText id)

/-- The plugins of the built-in types and the `toString` hook. -/
def Natives.builtin : Natives σ where
  plugins :=
    [(.int, .int), (.float, .float), (.string, .string), (.bool, .bool), (.anyArray, .array),
      (.type, .type)]
  hooks := [textHook]

end ObjectGraph
