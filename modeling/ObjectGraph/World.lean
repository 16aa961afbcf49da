import ObjectGraph.Heap.Chain
import ObjectGraph.Heap.EvalError
import ObjectGraph.Number.Integer
import ObjectGraph.Number.Notation
import ObjectGraph.Types.Lineage
import ObjectGraph.Types.Shape

/-!
# The world of an evaluation

Everything that a step of evaluation may read and change: the registered types, the heap, and a
state that belongs to the host's plugins. A step that fails keeps the changes it has made so far,
so that what is left can still be looked at.
-/

namespace ObjectGraph

/-- Types, heap and the host's own state. -/
structure World (σ : Type) where
  /-- The registered types. -/
  types : Registry
  /-- The heap. -/
  heap : Heap
  /-- What the host's plugins keep between calls. -/
  host : σ

/-- A step of evaluation. -/
abbrev Effect (σ α : Type) := EStateM EvalError (World σ) α

variable {σ α : Type}

namespace World

/-- A world with nothing on its heap. -/
def ofTypes (types : Registry) (host : σ) : World σ := ⟨types, .empty, host⟩

/-- The display name of an instance's type. -/
def typeName (w : World σ) (id : InstanceId) : String := w.types.name (w.heap.get id).ty

/-- The text of a scalar or a reflection, as `toString()` gives it. Floats are in plain notation,
and a text is itself. -/
def scalarText? (w : World σ) (id : InstanceId) : Option String :=
  match (w.heap.get id).payload with
  | .scalar (.int value) => some (Integer.text value)
  | .scalar (.float value) => some (NumberNotation.plain.text value)
  | .scalar (.string value) => some value
  | .scalar (.bool value) => some (toString value)
  | .type ty => some (w.types.name ty)
  | .none | .array _ | .host _ => none

/-- The text of any instance: its scalar text, or else the name of its type. -/
def shownText (w : World σ) (id : InstanceId) : String := (w.scalarText? id).getD (w.typeName id)

end World

namespace Effect

/-- Lets a step register types. -/
def onTypes (step : Registering α) : Effect σ α := fun w =>
  let (value, types) := step w.types
  .ok value { w with types }

/-- Lets a step allocate on the heap. -/
def onHeap (step : Heap → α × Heap) : Effect σ α := fun w =>
  let (value, heap) := step w.heap
  .ok value { w with heap }

/-- Changes the heap. -/
def modifyHeap (f : Heap → Heap) : Effect σ Unit := fun w => .ok () { w with heap := f w.heap }

/-- Reads the world. -/
def read (f : World σ → α) : Effect σ α := fun w => .ok (f w) w

/-- An instance. -/
def instanceOf (id : InstanceId) : Effect σ Instance := read fun w => w.heap.get id

/-- Fails because an instance does not carry the data that is expected of it. -/
def invalidPayload (id : InstanceId) (expected : String) : Effect σ α := do
  throw (.invalidPayload (← read (·.typeName id)) expected)

/-- Allocates a memberless instance that carries data. -/
def allocValue (ty : TypeId) (payload : Payload) : Effect σ InstanceId :=
  onHeap (Heap.allocInstance (.ofPayload ty payload))

/-- The expression of a value handed over by host code. -/
def materialize : HostValue → Effect σ Expr
  | .value ty payload => return .object (← allocValue ty payload)
  | .missing ty => pure (.missing ty)

/-- Registers host work whose result has the given type. The expression stands for the result
until the work has been done. -/
def spawn (ty : TypeId) (task : Outcome) : Effect σ Expr := do
  return .promise (← onHeap (Heap.allocPromise (.registered ty task))) ty

end Effect

end ObjectGraph
