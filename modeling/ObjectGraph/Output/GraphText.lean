import ObjectGraph.Output.Rendering
import ObjectGraph.Tree.Printer

/-!
# Graphs as text

The same values as in JSON, laid out for people: an object is its type's name and a block with one
property a line, indented by two spaces a level. Texts are quoted, and what is not final is shown
as the expression it has come to.
-/

namespace ObjectGraph

namespace GraphText

open Rendering

variable {σ : Type}

/-- The indentation of a level. -/
def indent (depth : Nat) : String := String.join (List.replicate depth "  ")

/-- The text of a value, given that of instances; nothing for functions. -/
def ofExpr (w : World σ) (mode : RenderMode)
    (ofInstance : String → InstanceId → Except EvalError String) (path : String) :
    Expr → Except EvalError (Option String)
  | .missing _ => .ok (some "null")
  | .function _ _ | .unbound _ => .ok none
  | .object id => (ofInstance path id).map some
  | e => replaceOr mode .unreduced path
      (some (unresolvedText ++ " " ++ e.text w.types w.scalarText?))

/-- The elements of an array, from the given index on. -/
def items (render : String → Expr → Except EvalError (Option String)) (path : String) :
    Nat → List Expr → Except EvalError (List String)
  | _, [] => .ok []
  | index, e :: es => do
    let item ← render (extend path (elementSegment index)) e
    return item.getD "null" :: (← items render path (index + 1) es)

/-- The lines of an object's properties. -/
def lines (render : String → Expr → Except EvalError (Option String)) (path : String)
    (depth : Nat) : List Slot → Except EvalError String
  | [] => .ok ""
  | slot :: slots => do
    let value ← render (extend path slot.name) slot.expr
    let rest ← lines render path depth slots
    return (match value with
      | some text => indent depth ++ slot.name ++ ": " ++ text ++ "\n" ++ rest
      | none => rest)

/-- The text of an instance inside of the instances `around`. These are all different, so that
their number bounds the depth. -/
def ofInstance (w : World σ) (mode : RenderMode) :
    Nat → List InstanceId → Nat → String → InstanceId → Except EvalError String
  | 0, _, _, path, _ => replaceOr mode .cycle path cycleText
  | fuel + 1, around, depth, path, id =>
    if around.contains id then replaceOr mode .cycle path cycleText
    else
      let render (depth : Nat) := ofExpr w mode (ofInstance w mode fuel (id :: around) depth)
      match (w.heap.get id).payload with
      | .scalar (.string value) => .ok (Quoted.text value)
      | .scalar _ | .type _ => .ok (w.shownText id)
      | .array elements => do
        return "[" ++ String.intercalate ", " (← items (render depth) path 0 elements) ++ "]"
      | .none | .host _ => do
        let body ← lines (render (depth + 1)) path (depth + 1) (shownSlots w id)
        return w.typeName id ++ " \x7b\n" ++ body ++ indent depth ++ "\x7d"

end GraphText

/-- The text of the graph below an instance. -/
def World.toText {σ : Type} (w : World σ) (mode : RenderMode) (root : InstanceId) :
    Except EvalError String :=
  GraphText.ofInstance w mode (w.heap.instances.size + 1) [] 0 "" root

end ObjectGraph
