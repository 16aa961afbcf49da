import ObjectGraph.Json
import ObjectGraph.Output.Rendering

/-!
# Graphs as JSON

Objects become JSON objects of their shown properties, in the order of the slots. Arrays become
arrays, scalars become scalars, a reflection becomes the name of its type, and a missing value
becomes null. Functions are left out of objects and are null in arrays.
-/

namespace ObjectGraph

namespace GraphJson

open Rendering

variable {σ : Type}

/-- The JSON of a scalar. -/
def ofScalar : Scalar → Json
  | .int value => .int value.toInt
  | .float value => .float value
  | .string value => .string value
  | .bool value => .bool value

/-- The JSON of a value, given that of instances; nothing for functions. -/
def ofExpr (mode : RenderMode) (ofInstance : String → InstanceId → Except EvalError Json)
    (path : String) : Expr → Except EvalError (Option Json)
  | .missing _ => .ok (some .null)
  | .function _ _ | .unbound _ => .ok none
  | .object id => (ofInstance path id).map some
  | _ => replaceOr mode .unreduced path (some (.string unresolvedText))

/-- The items of an array, from the given index on. -/
def items (render : String → Expr → Except EvalError (Option Json)) (path : String) :
    Nat → List Expr → Except EvalError (List Json)
  | _, [] => .ok []
  | index, e :: es => do
    let item ← render (extend path (elementSegment index)) e
    return item.getD .null :: (← items render path (index + 1) es)

/-- The members of an object, added to those before. -/
def members (render : String → Expr → Except EvalError (Option Json)) (path : String) :
    List Slot → List (String × Json) → Except EvalError (List (String × Json))
  | [], before => .ok before
  | slot :: slots, before => do
    match ← render (extend path slot.name) slot.expr with
    | some value => members render path slots (Json.insertMember before slot.name value)
    | none => members render path slots before

/-- The JSON of an instance inside of the instances `around`. These are all different, so that
their number bounds the depth. -/
def ofInstance (w : World σ) (mode : RenderMode) :
    Nat → List InstanceId → String → InstanceId → Except EvalError Json
  | 0, _, path, _ => replaceOr mode .cycle path (.string cycleText)
  | fuel + 1, around, path, id =>
    if around.contains id then replaceOr mode .cycle path (.string cycleText)
    else
      let render := ofExpr mode (ofInstance w mode fuel (id :: around))
      match (w.heap.get id).payload with
      | .scalar value => .ok (ofScalar value)
      | .type ty => .ok (.string (w.types.name ty))
      | .array elements => (items render path 0 elements).map .array
      | .none | .host _ => (members render path (shownSlots w id) []).map .object

end GraphJson

/-- The JSON of the graph below an instance. -/
def World.toJson {σ : Type} (w : World σ) (mode : RenderMode) (root : InstanceId) :
    Except EvalError Json :=
  GraphJson.ofInstance w mode (w.heap.instances.size + 1) [] "" root

end ObjectGraph
