import ObjectGraph.Heap.Basic
import ObjectGraph.Tree.Printer

/-!
# Payloads at a glance

A payload in one short text, for looking into a heap. Scalars and reflections show their value, an
array only its length, and a plugin's data does not show.
-/

namespace ObjectGraph

/-- The kind of a scalar. -/
def Scalar.kindName : Scalar → String
  | .int _ => "Int"
  | .float _ => "Float"
  | .string _ => "String"
  | .bool _ => "Bool"

/-- The kind of a payload and what is worth showing of it. -/
def Payload.summary : Payload → String
  | .none => "None"
  | .scalar value => value.kindName ++ "(" ++ value.text ++ ")"
  | .array elements => "Array(len=" ++ Nat.repr elements.length ++ ")"
  | .type ty => "Type(" ++ Nat.repr ty.index ++ ")"
  | .host _ => "Host(..)"

end ObjectGraph
