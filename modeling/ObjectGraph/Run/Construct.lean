import ObjectGraph.Plugin.Basic

/-!
# Construction

Building an instance allocates it together with one constructor scope for each type of its
lineage. A constructor scope binds the parameters of its type and the methods that the type knows,
and has the new instance as receiver. A parent's arguments are the child's, closed over the
child's scope. Nothing is evaluated: arguments and initializers are stored as they are.
-/

namespace ObjectGraph

variable {σ : Type}

/-- Binds each parameter to the argument in its place, and to a missing value of its type where
there is none. -/
def bindParams : List Param → List Expr → List Binding
  | [], _ => []
  | p :: ps, [] => ⟨p.name, .missing p.ty, p.ty⟩ :: bindParams ps []
  | p :: ps, arg :: args => ⟨p.name, arg, p.ty⟩ :: bindParams ps args

/-- The names of the methods that a type declares or inherits, each once, the nearest type's
first. -/
def Registry.methodNames (r : Registry) (ty : TypeId) : List String :=
  ((r.lineage ty).flatMap fun t => (r.definition t).methods.map (·.name)).eraseDups

/-- Binds method names to the methods that a class answers them with, which are the most derived
ones. -/
def bindMethods (cls : TypeId) : List String → Registering (List Binding)
  | [] => pure []
  | name :: names => do
    match (← get).findMethod cls name with
    | none => bindMethods cls names
    | some method =>
      let ty ← Registry.methodType method
      return ⟨name, .unbound method, ty⟩ :: (← bindMethods cls names)

namespace Effect

/-- Allocates the constructor scope of one type for a new instance of a class. A parameter hides a
method of the same name. -/
def constructorScope (cls ty : TypeId) (receiver : InstanceId) (args : List Expr) :
    Effect σ ScopeId := do
  let types ← read (·.types)
  let params := bindParams (types.definition ty).params args
  let names := (types.methodNames ty).filter fun name => !params.any (·.name == name)
  let methods ← onTypes (bindMethods cls names)
  onHeap (Heap.allocScope { receiver := some receiver, bindings := params ++ methods })

/-- Allocates the constructor scopes of a lineage, which is given nearest first. They are answered
root first. -/
def constructorScopes (cls : TypeId) (receiver : InstanceId) :
    List TypeId → List Expr → Effect σ (List (TypeId × ScopeId))
  | [], _ => pure []
  | ty :: rest, args => do
    let scope ← constructorScope cls ty receiver args
    let parentArgs ← read fun w => (w.types.definition ty).parentArgs.map (.scoped scope)
    return (← constructorScopes cls receiver rest parentArgs) ++ [(ty, scope)]

end Effect

/-- Adds a slot. A slot of the same name keeps its place and is replaced. -/
def placeSlot (slots : List Slot) (slot : Slot) : List Slot :=
  match slots with
  | [] => [slot]
  | s :: rest => if s.name = slot.name then slot :: rest else s :: placeSlot rest slot

/-- The slot that a declared property starts as. Without an initializer it is looked up through
the plugin, if the class has one, and is missing otherwise. -/
def initialSlot (native : Bool) (id : InstanceId) (ty : TypeId) (scope : ScopeId) (p : Property) :
    Slot where
  name := p.name
  declaring := ty
  ty := p.ty
  expr :=
    match p.initializer with
    | some init => .scoped scope init
    | none => if native then .member (.object id) p.name p.ty else .missing p.ty

/-- The slots that a new instance starts with: one for each property of its lineage, root first. A
redeclared property keeps its first place. -/
def initialSlots (types : Registry) (native : Bool) (id : InstanceId)
    (scopes : List (TypeId × ScopeId)) : List Slot :=
  (scopes.flatMap fun (ty, scope) =>
    (types.definition ty).properties.map (initialSlot native id ty scope)).foldl placeSlot []

/-- Builds an instance of a class with the given constructor arguments. -/
def Effect.construct (natives : Natives σ) (cls : TypeId) (args : List Expr) :
    Effect σ InstanceId := do
  let id ← onHeap (Heap.allocInstance
    { ty := cls, payload := .none, scopes := [], sealed := false, slots := [] })
  let lineage ← read (·.types.lineage cls)
  let scopes ← constructorScopes cls id lineage args
  let slots ← read fun w => initialSlots w.types (natives.hasPlugin w.types cls) id scopes
  modifyHeap (Heap.modifyInstance id fun i => { i with scopes, slots })
  return id

end ObjectGraph
