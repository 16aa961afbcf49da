import ObjectGraph.Tree.Basic

/-!
# The heap

Scopes, instances and promises live in three arrays and are named by their positions, so that
changing a binding once shows wherever the scope is mentioned. Nothing is ever removed.
-/

namespace ObjectGraph

/-- The data that an instance carries besides its properties. -/
inductive Payload where
  /-- No data, as for plain objects. -/
  | none
  /-- The value of a scalar instance. -/
  | scalar (value : Scalar)
  /-- The elements of an array, which evaluation reduces in place. -/
  | array (elements : List Expr)
  /-- The type that a reflection stands for. -/
  | type (ty : TypeId)
  /-- Data of a plugin, which evaluation does not look into. -/
  | host (data : String)

instance : Inhabited Payload := ⟨.none⟩

/-- Whether the data never changes after allocation: scalars and reflections. -/
def Payload.isFixed : Payload → Bool
  | .scalar _ | .type _ => true
  | .none | .array _ | .host _ => false

/-- The elements of an array; none for other payloads. -/
def Payload.elements : Payload → List Expr
  | .array elements => elements
  | _ => []

/-- A name bound in a scope. -/
structure Binding where
  /-- The name. -/
  name : String
  /-- What it is bound to. -/
  expr : Expr
  /-- The declared type. -/
  ty : TypeId

/-- A binding environment. -/
structure Scope where
  /-- The enclosing scope. -/
  parent : Option ScopeId := none
  /-- What `this` means in the scope. -/
  receiver : Option InstanceId := none
  /-- The names bound by the scope itself. -/
  bindings : List Binding := []
  /-- The generic arguments of the call that made the scope. -/
  typeArgs : TypeArgs := []
deriving Inhabited

/-- A property of an instance. -/
structure Slot where
  /-- The property's name. -/
  name : String
  /-- The type that declares the property. -/
  declaring : TypeId
  /-- The declared type. -/
  ty : TypeId
  /-- The value, as far as it has been evaluated. -/
  expr : Expr

/-- A runtime object. -/
structure Instance where
  /-- The runtime type. -/
  ty : TypeId
  /-- The data besides the properties. -/
  payload : Payload
  /-- The constructor scope of each ancestor, root first. -/
  scopes : List (TypeId × ScopeId)
  /-- Whether the instance is final. -/
  sealed : Bool
  /-- The properties, the ancestors' first. -/
  slots : List Slot
deriving Inhabited

namespace Instance

/-- A memberless instance that carries data. Fixed data is final from the start. -/
def ofPayload (ty : TypeId) (payload : Payload) : Instance where
  ty := ty
  payload := payload
  scopes := []
  sealed := payload.isFixed
  slots := []

/-- The property of the given name. -/
def slot? (i : Instance) (name : String) : Option Slot := i.slots.find? (·.name == name)

/-- The constructor scope of an ancestor. -/
def constructorScope? (i : Instance) (ty : TypeId) : Option ScopeId := i.scopes.lookup ty

/-- The expressions that an instance holds: its property values, then its array elements. -/
def values (i : Instance) : List Expr := i.slots.map (·.expr) ++ i.payload.elements

end Instance

/-- A value handed over by host code. -/
inductive HostValue where
  /-- An instance of a type with the given data. -/
  | value (ty : TypeId) (payload : Payload)
  /-- Confirmed absence of a value of a type. -/
  | missing (ty : TypeId)

/-- What a host task comes to. -/
inductive Outcome where
  /-- It returns a value. -/
  | returns (value : HostValue)
  /-- It fails with a message. -/
  | rejects (message : String)
  /-- It dies without reporting back. -/
  | dies

/-- The state of a promise. It only moves forward in the order of the constructors. -/
inductive Promise where
  /-- Created, with the task that will answer it. -/
  | registered (ty : TypeId) (task : Outcome)
  /-- Its task is running. -/
  | inFlight (ty : TypeId)
  /-- Its task has ended and nobody has read the result yet. -/
  | settled (result : Except String HostValue)
  /-- The result as an expression, shared by all readers. -/
  | resolved (value : Expr)
  /-- The message that every reader fails with. -/
  | rejected (message : String)

instance : Inhabited Promise := ⟨.rejected ""⟩

/-- Whether the promise still waits for its task to be started. -/
def Promise.isPending : Promise → Bool
  | .registered _ _ => true
  | _ => false

/-- All scopes, instances and promises. -/
structure Heap where
  /-- The scopes. -/
  scopes : Array Scope
  /-- The instances. -/
  instances : Array Instance
  /-- The promises. -/
  promises : Array Promise
deriving Inhabited

namespace Heap

/-- A heap without anything on it. -/
def empty : Heap := ⟨#[], #[], #[]⟩

/-- A scope. An unknown handle names a scope without anything in it. -/
def scope (h : Heap) (id : ScopeId) : Scope := h.scopes.getD id.index default

/-- An instance. -/
def get (h : Heap) (id : InstanceId) : Instance := h.instances.getD id.index default

/-- A promise. -/
def promise (h : Heap) (id : PromiseId) : Promise := h.promises.getD id.index default

/-- Adds a scope. -/
def allocScope (s : Scope) (h : Heap) : ScopeId × Heap :=
  (⟨h.scopes.size⟩, { h with scopes := h.scopes.push s })

/-- Adds an instance. -/
def allocInstance (i : Instance) (h : Heap) : InstanceId × Heap :=
  (⟨h.instances.size⟩, { h with instances := h.instances.push i })

/-- Adds a promise. -/
def allocPromise (p : Promise) (h : Heap) : PromiseId × Heap :=
  (⟨h.promises.size⟩, { h with promises := h.promises.push p })

/-- Changes a scope. -/
def modifyScope (id : ScopeId) (f : Scope → Scope) (h : Heap) : Heap :=
  { h with scopes := h.scopes.modify id.index f }

/-- Changes an instance. -/
def modifyInstance (id : InstanceId) (f : Instance → Instance) (h : Heap) : Heap :=
  { h with instances := h.instances.modify id.index f }

/-- Puts a promise into another state. -/
def setPromise (id : PromiseId) (p : Promise) (h : Heap) : Heap :=
  { h with promises := h.promises.modify id.index fun _ => p }

end Heap

end ObjectGraph
