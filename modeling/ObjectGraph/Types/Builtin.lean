import ObjectGraph.Types.Registry

/-!
# The built-in types

The registry that every program starts from. It holds the seven built-in types at their reserved
positions, with the members that the built-in plugins supply.
-/

namespace ObjectGraph

namespace Builtin

/-- A property whose value a plugin supplies. -/
def property (name : String) (ty : TypeId) : Property := ⟨name, .visible, ty, none⟩

/-- A method whose calls a plugin answers. -/
def method (owner : TypeId) (name : String) (params : List Param) (result : TypeId) : Method where
  name := name
  params := params
  generics := []
  result := result
  body := none
  declaring := owner

/-- A built-in class below `any`. -/
def scalar (key : String) : TypeDef := .plain key .nominal (some .any)

/-- The definitions, in the order of their positions. -/
def defs : List TypeDef :=
  [ { TypeDef.plain "any" .nominal none with
      methods := [method .any "toString" [] .string] },
    scalar "int",
    scalar "float",
    { scalar "string" with properties := [property "length" .int] },
    scalar "bool",
    { scalar "Type" with properties := [property "name" .string] },
    { TypeDef.plain "any[]" (.array .any) (some .any) with
      properties := [property "length" .int]
      methods := [method .anyArray "join" [⟨"separator", .string⟩] .string] } ]

end Builtin

namespace Registry

/-- No types at all. -/
def empty : Registry := ⟨#[], [], 0⟩

/-- The built-in types. -/
def initial : Registry := Builtin.defs.foldl (fun r d => (insert d r).2) empty

instance : Inhabited Registry := ⟨initial⟩

/-- The initial registry holds one type at each reserved position. -/
theorem size_initial : initial.size = TypeId.builtinCount := by
  simp [initial, Builtin.defs, insert, empty, size, TypeId.builtinCount]

end Registry

end ObjectGraph
