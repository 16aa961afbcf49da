import ObjectGraph.Json
import ObjectGraph.Tree.Printer

/-!
# Trees as JSON

Where a tree has to be seen as it is, and not as it would be written, it is shown as JSON. An
expression is a list: first the word for its form, then its parts in order, and at the end the
type recorded on it. Types are shown by key and methods by their owner's key and their name.
Numbers are texts, so that no reader rounds them.
-/

namespace ObjectGraph

/-- A list that starts with a word. -/
def Json.headed (word : String) (parts : List Json) : Json := .array (.string word :: parts)

/-- A handle's position. -/
def Handle.toJson {store : Store} (handle : Handle store) : Json := .int handle.index

/-- The word for a scalar's type. -/
def Scalar.form : Scalar → String
  | .int _ => "int"
  | .float _ => "float"
  | .string _ => "str"
  | .bool _ => "bool"

/-- A scalar's value alone. -/
def Scalar.valueJson : Scalar → Json
  | .int n => .string (Integer.text n)
  | .float x => .string (NumberNotation.literal.text x)
  | .string s => .string s
  | .bool b => .bool b

/-- A scalar under the word for its type. -/
def Scalar.toJson (value : Scalar) : Json := .headed value.form [value.valueJson]

/-- The word for an expression's form. -/
def Expr.form : Expr → String
  | .scalar value => value.form
  | .array _ _ => "arr"
  | .object _ => "inst"
  | .this _ => "this"
  | .param _ _ => "param"
  | .variable _ _ => "var"
  | .member _ _ _ => "mem"
  | .index _ _ _ => "idx"
  | .binary _ _ _ _ => "bin"
  | .unary _ _ _ => "un"
  | .new _ _ => "new"
  | .call _ _ _ _ => "call"
  | .hooked _ _ _ => "nat"
  | .promise _ _ => "prom"
  | .missing _ => "missing"
  | .scoped _ _ => "scoped"
  | .block _ _ => "block"
  | .unbound _ => "ufn"
  | .function _ _ => "fn"

namespace Registry

/-- A type's key. -/
def keyJson (types : Registry) (ty : TypeId) : Json := .string (types.definition ty).key

/-- A method's owner and name. -/
def methodJson (types : Registry) (m : MethodRef) : Json :=
  .array [types.keyJson m.owner, .string (types.method m).name]

/-- Generic arguments as pairs of keys. -/
def typeArgsJson (types : Registry) (args : TypeArgs) : Json :=
  .array (args.map fun arg => .array [types.keyJson arg.1, types.keyJson arg.2])

end Registry

section TreeJson

variable (types : Registry)

mutual

/-- An expression with all that is in it. -/
def Expr.toJson (e : Expr) : Json :=
  .headed e.form <|
    match e with
    | .scalar value => [value.valueJson]
    | .array elements ty => [types.keyJson ty, .array (treesJson elements)]
    | .object id => [id.toJson]
    | .this ty => [types.keyJson ty]
    | .param name ty => [.string name, types.keyJson ty]
    | .variable name ty => [.string name, types.keyJson ty]
    | .member object name ty => [object.toJson, .string name, types.keyJson ty]
    | .index object index ty => [object.toJson, index.toJson, types.keyJson ty]
    | .binary op lhs rhs ty => [.string op.symbol, lhs.toJson, rhs.toJson, types.keyJson ty]
    | .unary op operand ty => [.string op.name, operand.toJson, types.keyJson ty]
    | .new cls args => [types.keyJson cls, .array (treesJson args)]
    | .call callee args typeArgs ty =>
      [callee.toJson, .array (treesJson args), types.typeArgsJson typeArgs, types.keyJson ty]
    | .hooked operand hook ty => [operand.toJson, hook.toJson, types.keyJson ty]
    | .promise id ty => [id.toJson, types.keyJson ty]
    | .missing ty => [types.keyJson ty]
    | .scoped scope body => [scope.toJson, body.toJson]
    | .block stmts ty => [.array (stmtsJson stmts), types.keyJson ty]
    | .unbound m => [types.methodJson m]
    | .function m receiver => [types.methodJson m, receiver.toJson]

/-- Each tree of a list. -/
def treesJson : List Expr → List Json
  | [] => []
  | e :: es => e.toJson :: treesJson es

/-- A statement under the word for its form. -/
def Stmt.toJson : Stmt → Json
  | .branch cond whenTrue whenFalse =>
    .headed "if" [cond.toJson, .array (stmtsJson whenTrue), .array (stmtsJson whenFalse)]
  | .result value => .headed "ret" [value.toJson]
  | .declare name ty init => .headed "let" [.string name, types.keyJson ty, init.toJson]
  | .assign name value => .headed "set" [.string name, value.toJson]

/-- Each statement of a list. -/
def stmtsJson : List Stmt → List Json
  | [] => []
  | s :: ss => s.toJson :: stmtsJson ss

end

end TreeJson

end ObjectGraph
