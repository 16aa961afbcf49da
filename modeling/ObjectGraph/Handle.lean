/-!
# Handles

Scopes, instances, promises and hooks live in numbered stores, and tree nodes name them by
handle. One type serves all four stores, indexed by the kind of thing a handle names, so that a
scope's number cannot be taken for an instance's.
-/

namespace ObjectGraph

/-- The stores that handles point into. -/
inductive Store where
  /-- Binding environments. -/
  | scope
  /-- Runtime objects. -/
  | object
  /-- Results of asynchronous host work. -/
  | promise
  /-- Host callbacks. -/
  | hook
deriving DecidableEq, Repr

/-- The word that handles into the store are shown with. -/
def Store.label : Store → String
  | .scope => "scope"
  | .object => "instance"
  | .promise => "promise"
  | .hook => "hook"

/-- A position in one of the stores. -/
structure Handle (store : Store) where
  /-- The position, counted from zero in order of allocation. -/
  index : Nat
deriving DecidableEq, Repr, Inhabited

/-- A scope's handle. -/
abbrev ScopeId := Handle .scope
/-- An instance's handle. -/
abbrev InstanceId := Handle .object
/-- A promise's handle. -/
abbrev PromiseId := Handle .promise
/-- A hook's handle. -/
abbrev HookId := Handle .hook

/-- A handle is shown as its store's word and its position: `scope#3`. -/
def Handle.text {store : Store} (handle : Handle store) : String :=
  store.label ++ "#" ++ Nat.repr handle.index

/-- A registered type, by its position in the registry. The first seven positions belong to the
built-in types. -/
structure TypeId where
  /-- The position in the registry. -/
  index : Nat
deriving DecidableEq, Repr, Inhabited

namespace TypeId

/-- The root of every class hierarchy, which accepts any value. -/
def any : TypeId := ⟨0⟩
/-- Signed integers of 64 bits. -/
def int : TypeId := ⟨1⟩
/-- Binary floating point numbers of 64 bits. -/
def float : TypeId := ⟨2⟩
/-- Texts. -/
def string : TypeId := ⟨3⟩
/-- Truth values. -/
def bool : TypeId := ⟨4⟩
/-- Reflected types, the results of `typeof`. -/
def type : TypeId := ⟨5⟩
/-- `any[]`, which every array type extends. -/
def anyArray : TypeId := ⟨6⟩

/-- How many positions the built-in types take. -/
def builtinCount : Nat := 7

/-- Whether the position belongs to a built-in type. -/
def isBuiltin (ty : TypeId) : Bool := ty.index < builtinCount

end TypeId

end ObjectGraph
