import ObjectGraph.Heap.Basic

/-!
# Cells

A cell is a place on the heap that holds an expression: a binding of a scope, a property of an
instance, or an element of an array. Evaluation works cell by cell.
-/

namespace ObjectGraph

/-- A place that holds an expression. -/
inductive Cell where
  /-- A binding of a scope, by its index. -/
  | binding (scope : ScopeId) (index : Nat)
  /-- A property of an instance, by its index. -/
  | slot (owner : InstanceId) (index : Nat)
  /-- An array element, by its index. -/
  | element (owner : InstanceId) (index : Nat)
deriving DecidableEq, Repr

/-- Replaces the expression of a binding. -/
def Binding.withExpr (e : Expr) (b : Binding) : Binding := { b with expr := e }

/-- Replaces the expression of a property. -/
def Slot.withExpr (e : Expr) (s : Slot) : Slot := { s with expr := e }

/-- Replaces an element, if the payload is an array. -/
def Payload.setElement (index : Nat) (e : Expr) : Payload → Payload
  | .array elements => .array (elements.set index e)
  | payload => payload

namespace Heap

/-- The expression in a cell. -/
def read? (h : Heap) : Cell → Option Expr
  | .binding scope index => (h.scope scope).bindings[index]?.map (·.expr)
  | .slot owner index => (h.get owner).slots[index]?.map (·.expr)
  | .element owner index => (h.get owner).payload.elements[index]?

/-- Puts an expression into a cell. -/
def write (h : Heap) (cell : Cell) (e : Expr) : Heap :=
  match cell with
  | .binding scope index =>
    h.modifyScope scope fun s => { s with bindings := s.bindings.modify index (·.withExpr e) }
  | .slot owner index =>
    h.modifyInstance owner fun i => { i with slots := i.slots.modify index (·.withExpr e) }
  | .element owner index =>
    h.modifyInstance owner fun i => { i with payload := i.payload.setElement index e }

/-- The cells of a scope. -/
def bindingCells (h : Heap) (scope : ScopeId) : List Cell :=
  (List.range (h.scope scope).bindings.length).map (.binding scope)

/-- The property cells of an instance. -/
def slotCells (h : Heap) (owner : InstanceId) : List Cell :=
  (List.range (h.get owner).slots.length).map (.slot owner)

/-- The element cells of an instance; none unless it is an array. -/
def elementCells (h : Heap) (owner : InstanceId) : List Cell :=
  (List.range (h.get owner).payload.elements.length).map (.element owner)

end Heap

end ObjectGraph
