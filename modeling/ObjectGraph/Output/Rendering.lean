import ObjectGraph.World

/-!
# Rendering evaluated graphs

What the JSON form and the text form of a graph have in common. Properties that are hidden by the
type that declares them are left out. A value that is not final, and an instance inside of itself,
are errors in strict mode, which name the place by its path. In force mode they are replaced by
fixed texts, so that a partial graph can be shown.
-/

namespace ObjectGraph

/-- What happens to values that have no final form. -/
inductive RenderMode where
  /-- They are errors. -/
  | strict
  /-- They are replaced by fixed texts. -/
  | force
deriving DecidableEq, Repr

namespace Rendering

/-- What stands for a value that is not final. -/
def unresolvedText : String := "<unresolved>"

/-- What stands for an instance inside of itself. -/
def cycleText : String := "<cycle>"

/-- The path of a part: property names are separated by points, and an index in brackets is put
behind what it belongs to. -/
def extend (path segment : String) : String :=
  if path.isEmpty || segment.startsWith "[" then path ++ segment else path ++ "." ++ segment

/-- The segment of an element. -/
def elementSegment (index : Nat) : String := "[" ++ Nat.repr index ++ "]"

/-- A path as errors show it. -/
def shown (path : String) : String := if path.isEmpty then "<root>" else path

/-- The replacement for a value in force mode, and its error in strict mode. -/
def replaceOr {α : Type} (mode : RenderMode) (error : String → EvalError) (path : String)
    (replacement : α) : Except EvalError α :=
  match mode with
  | .strict => .error (error (shown path))
  | .force => .ok replacement

/-- Whether rendering shows a slot. A slot whose declaration cannot be found is shown. -/
def isShown (types : Registry) (slot : Slot) : Bool :=
  ((types.definition slot.declaring).property? slot.name).all (·.visibility == .visible)

/-- The slots of an instance that rendering shows. -/
def shownSlots {σ : Type} (w : World σ) (id : InstanceId) : List Slot :=
  (w.heap.get id).slots.filter (isShown w.types)

end Rendering

end ObjectGraph
