import ObjectGraph.Source.Span

/-!
# Type errors

What can be wrong with the types of a program, each with the place to point at. Types appear by
display name, so that an error can be read without the registry it arose in.
-/

namespace ObjectGraph

/-- Why two types had to agree. -/
inductive Origin where
  /-- A value assigned to a variable. -/
  | assignment (loc : Location)
  /-- A call's argument, counted from zero. -/
  | argument (call : Location) (index : Nat)
  /-- A result against the method's declared type. -/
  | result (loc : Location)
  /-- A property's initializer against the property's declared type. -/
  | initializer (property : String) (loc : Location)
deriving DecidableEq, Repr

/-- The place of the site. -/
def Origin.location : Origin → Location
  | .assignment loc => loc
  | .argument call _ => call
  | .result loc => loc
  | .initializer _ loc => loc

/-- A type error. -/
inductive TypeError where
  /-- A name that no type has. -/
  | unknownType (name : String) (loc : Location)
  /-- A value that does not fit where it flows. -/
  | mismatch (expected found : String) (origin : Origin)
  /-- A call with the wrong number of arguments. -/
  | arity (expected found : Nat) (loc : Location)
  /-- A member that the type does not have. -/
  | noSuchMember (ty member : String) (loc : Location)
  /-- An operator on a type, or a pair of types, that it is not defined for. -/
  | invalidOperator (op lhs : String) (rhs : Option String) (loc : Location)
  /-- A second declaration of a type's name. -/
  | duplicateType (name : String) (loc : Location)
deriving DecidableEq, Repr

namespace TypeError

/-- The place that the error points at. -/
def location : TypeError → Location
  | unknownType _ loc => loc
  | mismatch _ _ origin => origin.location
  | arity _ _ loc => loc
  | noSuchMember _ _ loc => loc
  | invalidOperator _ _ _ loc => loc
  | duplicateType _ loc => loc

/-- The error in one sentence. -/
def message : TypeError → String
  | unknownType name _ => s!"unknown type `{name}`"
  | mismatch expected found _ => s!"type mismatch: expected `{expected}`, found `{found}`"
  | arity expected found _ => s!"arity mismatch: expected {expected} arguments, found {found}"
  | noSuchMember ty member _ => s!"type `{ty}` has no member `{member}`"
  | invalidOperator op lhs (some rhs) _ => s!"operator `{op}` cannot be applied to `{lhs}` and `{rhs}`"
  | invalidOperator op lhs none _ => s!"operator `{op}` cannot be applied to `{lhs}`"
  | duplicateType name _ => s!"type `{name}` is declared more than once"

/-- The code that the kind of error is known by. -/
def code : TypeError → String
  | mismatch .. => "E0001"
  | unknownType .. => "E0002"
  | arity .. => "E0003"
  | noSuchMember .. => "E0004"
  | invalidOperator .. => "E0005"
  | duplicateType .. => "E0006"

end TypeError

/-- A written type name without its trailing pairs of brackets, and how many there were. -/
def splitBrackets (name : String) : String × Nat :=
  go name.toList.reverse
where
  /-- Takes bracket pairs off a reversed name. -/
  go : List Char → String × Nat
    | ']' :: '[' :: rest => ((go rest).1, (go rest).2 + 1)
    | rest => (String.ofList rest.reverse, 0)

end ObjectGraph
