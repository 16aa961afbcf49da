import ObjectGraph.Types.Definition

/-!
# The type registry

All types live in one list and are named by their position in it. A table maps keys to positions.
Array types, function types and placeholders are made on demand and found again by their key, so
that asking twice for the same shape gives the same type. A poison type is new at each request.
-/

namespace ObjectGraph

/-- Why a type could not be found or added. -/
inductive RegistryError where
  /-- No type has the key. -/
  | notFound (key : String)
  /-- A type with the key exists already. -/
  | duplicate (key : String)
deriving DecidableEq, Repr

/-- The wording of a registry error. -/
def RegistryError.message : RegistryError → String
  | .notFound key => s!"type `{key}` not found"
  | .duplicate key => s!"type `{key}` is already registered"

/-- The registered types. -/
structure Registry where
  /-- The definitions, each at its type's position. -/
  defs : Array TypeDef
  /-- The positions by key, the latest entry for a key first. -/
  keys : List (String × TypeId)
  /-- How many poison types have been made. -/
  poisons : Nat

/-- A step that may register types. -/
abbrev Registering := StateM Registry

namespace Registry

/-- The number of registered types. -/
def size (r : Registry) : Nat := r.defs.size

/-- The type with the given key. -/
def find? (r : Registry) (key : String) : Option TypeId := r.keys.lookup key

/-- The type with the given key, or the error that there is none. -/
def lookup (r : Registry) (key : String) : Except RegistryError TypeId :=
  match r.find? key with
  | some ty => .ok ty
  | none => .error (.notFound key)

/-- The definition of a type. A position that is not registered has an empty definition. -/
def definition (r : Registry) (ty : TypeId) : TypeDef := r.defs.getD ty.index default

/-- A type's shape. -/
def kind (r : Registry) (ty : TypeId) : TypeKind := (r.definition ty).kind

/-- A type's display name. -/
def name (r : Registry) (ty : TypeId) : String := (r.definition ty).display

/-- A type's parent. -/
def parent (r : Registry) (ty : TypeId) : Option TypeId := (r.definition ty).parent

/-- A method's definition. -/
def method (r : Registry) (m : MethodRef) : Method := (r.definition m.owner).methods.getD m.index default

/-- Whether a type is a poison type. -/
def isPoison (r : Registry) (ty : TypeId) : Bool := r.kind ty == .poison

/-- The element type of an array type. -/
def element? (r : Registry) (ty : TypeId) : Option TypeId :=
  match r.kind ty with
  | .array element => some element
  | _ => none

/-- Adds a definition at the next position and makes its key lead there. -/
def insert (d : TypeDef) : Registering TypeId := fun r =>
  (⟨r.size⟩, { r with defs := r.defs.push d, keys := (d.key, ⟨r.size⟩) :: r.keys })

/-- Adds a definition under a key that must be free. -/
def register (r : Registry) (d : TypeDef) : Except RegistryError (TypeId × Registry) :=
  match r.find? d.key with
  | some _ => .error (.duplicate d.key)
  | none => .ok (insert d r)

/-- Adds a class without members. Its parent is `any` unless another is given. -/
def declareClass (r : Registry) (key : String) (parent : Option TypeId) :
    Except RegistryError (TypeId × Registry) :=
  r.register (.plain key .nominal (some (parent.getD .any)))

/-- Declares classes in order, up to the first name that is taken. The names before it stay
declared. -/
def declareClasses : List String → Registering (Except RegistryError (List TypeId))
  | [] => return .ok []
  | key :: keys => fun r =>
    match r.declareClass key none with
    | .error e => (.error e, r)
    | .ok (ty, r) =>
      let (rest, r) := declareClasses keys r
      (rest.map (ty :: ·), r)

/-- The type with the definition's key, which is added if there is none. -/
def findOrInsert (d : TypeDef) : Registering TypeId := fun r =>
  match r.find? d.key with
  | some ty => (ty, r)
  | none => insert d r

/-- The definition of the array type of an element type. Key and display name are the element's,
followed by brackets. -/
def arrayDef (r : Registry) (element : TypeId) : TypeDef where
  key := (r.definition element).key ++ "[]"
  display := r.name element ++ "[]"
  kind := .array element
  parent := some .anyArray

/-- The array type of an element type. -/
def arrayOf (element : TypeId) : Registering TypeId := do
  findOrInsert ((← get).arrayDef element)

/-- A function type's name over the names of its parts: `(a, b) => c`. -/
def functionName (params : List String) (result : String) : String :=
  "(" ++ String.intercalate ", " params ++ ") => " ++ result

/-- The definition of a function type. -/
def functionDef (r : Registry) (params : List TypeId) (result : TypeId) : TypeDef where
  key := functionName (params.map fun p => (r.definition p).key) (r.definition result).key
  display := functionName (params.map r.name) (r.name result)
  kind := .function params result
  parent := some .any

/-- The function type with the given parameter and result types. -/
def functionOf (params : List TypeId) (result : TypeId) : Registering TypeId := do
  findOrInsert ((← get).functionDef params result)

/-- The generic placeholder of a name and an owner, which is usually a class and a method with a
point between them. -/
def placeholder (owner name : String) : Registering TypeId :=
  findOrInsert { key := owner ++ "." ++ name, display := name, kind := .placeholder,
                 parent := some .any }

/-- A new poison type, distinct from all others. Poison extends nothing. -/
def newPoison : Registering TypeId := do
  let count := (← get).poisons + 1
  modify fun r => { r with poisons := count }
  insert { key := s!"<poison#{count}>", display := "<error>", kind := .poison, parent := none }

/-- The function type of a method's signature. -/
def methodType (m : MethodRef) : Registering TypeId := do
  let method := (← get).method m
  functionOf (method.params.map (·.ty)) method.result

/-- Changes a type's definition. -/
def modifyDef (ty : TypeId) (f : TypeDef → TypeDef) (r : Registry) : Registry :=
  { r with defs := r.defs.modify ty.index f }

end Registry

/-- The parts of a class that are filled in after its name has been declared. -/
structure ClassBody where
  /-- The parent; none keeps the one the class was declared with. -/
  parent : Option TypeId := none
  /-- The arguments for the parent's constructor. -/
  parentArgs : List Expr := []
  /-- The constructor parameters. -/
  params : List Param := []
  /-- The properties. -/
  properties : List Property := []
  /-- The methods. -/
  methods : List Method := []

/-- Gives a declared class its members and, if the body names one, its parent. -/
def Registry.defineClass (cls : TypeId) (body : ClassBody) (r : Registry) : Registry :=
  r.modifyDef cls fun d =>
    { d with
      parent := body.parent.or d.parent
      parentArgs := body.parentArgs
      params := body.params
      properties := body.properties
      methods := body.methods }

end ObjectGraph
