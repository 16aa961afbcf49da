import ObjectGraph.Tree.Basic

/-!
# Type definitions

What the registry knows about a type: its key and display name, its shape, its parent, and for
classes the constructor parameters, properties and methods.
-/

namespace ObjectGraph

/-- The shape of a type. -/
inductive TypeKind where
  /-- A class, built in or declared. -/
  | nominal
  /-- `element[]`. -/
  | array (element : TypeId)
  /-- `(params) => result`. -/
  | function (params : List TypeId) (result : TypeId)
  /-- A generic placeholder of a method. -/
  | placeholder
  /-- The stand-in type of one site that failed to check. -/
  | poison
deriving DecidableEq, Repr, Inhabited

/-- Whether a property is part of a rendered object. -/
inductive Visibility where
  | visible
  | hidden
deriving DecidableEq, Repr

/-- A constructor's or method's parameter. -/
structure Param where
  /-- The name it is bound to. -/
  name : String
  /-- The declared type. -/
  ty : TypeId
deriving DecidableEq, Repr

/-- A declared property. -/
structure Property where
  /-- The property's name. -/
  name : String
  /-- Whether rendering shows it. -/
  visibility : Visibility
  /-- The declared type. -/
  ty : TypeId
  /-- The initializer; none where the class's plugin supplies the value. -/
  initializer : Option Expr

/-- A declared method. -/
structure Method where
  /-- The method's name. -/
  name : String
  /-- The parameters, in order. -/
  params : List Param
  /-- The generic placeholders, in order. -/
  generics : List TypeId
  /-- The declared result type. -/
  result : TypeId
  /-- The body; none where the class's plugin answers calls. -/
  body : Option Body
  /-- The type that declares the method. -/
  declaring : TypeId
deriving Inhabited

/-- Everything known about a type. -/
structure TypeDef where
  /-- The name that the registry looks the type up by. -/
  key : String
  /-- The name shown to people. A placeholder's key is qualified by its owner, its display name
  is not. -/
  display : String
  /-- The shape. -/
  kind : TypeKind
  /-- The type that this one extends. -/
  parent : Option TypeId
  /-- The arguments for the parent's constructor, in terms of this type's parameters. -/
  parentArgs : List Expr := []
  /-- The constructor parameters. -/
  params : List Param := []
  /-- The properties declared by this type itself. -/
  properties : List Property := []
  /-- The methods declared by this type itself. -/
  methods : List Method := []
deriving Inhabited

namespace TypeDef

/-- A type without members whose display name is its key. -/
def plain (key : String) (kind : TypeKind) (parent : Option TypeId) : TypeDef :=
  { key, display := key, kind, parent }

/-- The type's own property of the given name. -/
def property? (d : TypeDef) (name : String) : Option Property :=
  d.properties.find? (·.name == name)

/-- The position of the type's own method of the given name. -/
def methodIndex? (d : TypeDef) (name : String) : Option Nat :=
  d.methods.findIdx? (·.name == name)

end TypeDef

end ObjectGraph
