import ObjectGraph.Heap.Basic

/-!
# Scope chains

A scope's chain is the scope followed by its parents, from the inside out. Names, the receiver
and generic arguments are looked up along it, and the nearest scope that has one wins.
-/

namespace ObjectGraph

/-- The position of a binding: its scope and its index there. -/
structure BindingRef where
  /-- The scope. -/
  scope : ScopeId
  /-- The index among the scope's bindings. -/
  index : Nat
deriving DecidableEq, Repr

namespace Heap

/-- The enclosing scopes of a scope from the inside out, as far as `fuel` reaches. -/
def outerWithin (h : Heap) : Nat → ScopeId → List ScopeId
  | 0, _ => []
  | fuel + 1, id =>
    match (h.scope id).parent with
    | some parent => parent :: h.outerWithin fuel parent
    | none => []

/-- A scope and its enclosing scopes. No chain without a loop is longer than the list of scopes.
Where parents run in a loop, the chain is cut at that length, while a walk along them has no end. -/
def chain (h : Heap) (id : ScopeId) : List ScopeId := id :: h.outerWithin h.scopes.size id

/-- The nearest binding of a name. -/
def lookup? (h : Heap) (id : ScopeId) (name : String) : Option BindingRef :=
  (h.chain id).findSome? fun s =>
    ((h.scope s).bindings.findIdx? (·.name == name)).map (⟨s, ·⟩)

/-- The nearest receiver. -/
def receiver? (h : Heap) (id : ScopeId) : Option InstanceId :=
  (h.chain id).findSome? fun s => (h.scope s).receiver

/-- The generic argument that the nearest call binds to a placeholder. -/
def typeArg? (h : Heap) (id : ScopeId) (param : TypeId) : Option TypeId :=
  (h.chain id).findSome? fun s => (h.scope s).typeArgs.lookup param

/-- Whether every name that the scope sees is bound to a terminal expression. -/
def isReduced (h : Heap) (id : ScopeId) : Bool :=
  (h.chain id).all fun s => (h.scope s).bindings.all (·.expr.isTerminal)

end Heap

end ObjectGraph
