import ObjectGraph.Number.Integer
import ObjectGraph.Number.Notation
import ObjectGraph.Text.Quoted
import ObjectGraph.Types.Registry

/-!
# Trees as text

A tree is printed on one line, in the syntax it would be written in. Scopes do not show. An
instance shows as its label where it has one, and as its handle otherwise.
-/

namespace ObjectGraph

/-- The text of a scalar literal. -/
def Scalar.text : Scalar → String
  | .int value => Integer.text value
  | .float value => NumberNotation.literal.text value
  | .string value => Quoted.text value
  | .bool value => toString value

namespace Printer

variable (types : Registry) (label : InstanceId → Option String)

/-- An instance's label, or its handle. -/
def instanceText (id : InstanceId) : String := (label id).getD id.text

mutual

/-- The text of an expression. -/
def exprText : Expr → String
  | .scalar value => value.text
  | .array elements _ => "[" ++ listText elements ++ "]"
  | .object id => instanceText label id
  | .this _ => "this"
  | .param name _ => name
  | .variable name _ => name
  | .member object name _ => exprText object ++ "." ++ name
  | .index object index _ => exprText object ++ "[" ++ exprText index ++ "]"
  | .binary op lhs rhs _ => "(" ++ exprText lhs ++ " " ++ op.symbol ++ " " ++ exprText rhs ++ ")"
  | .unary op operand _ => op.symbol ++ exprText operand
  | .new cls args => "new " ++ types.name cls ++ "(" ++ listText args ++ ")"
  | .call callee args _ _ => exprText callee ++ "(" ++ listText args ++ ")"
  | .hooked operand hook _ => exprText operand ++ ".<" ++ hook.text ++ ">"
  | .promise id _ => "<" ++ id.text ++ ">"
  | .missing _ => "missing"
  | .scoped _ body => exprText body
  | .block stmts _ => "\x7b" ++ stmtsText stmts ++ " \x7d"
  | .unbound method => types.name method.owner ++ "." ++ (types.method method).name
  | .function method receiver => instanceText label receiver ++ "." ++ (types.method method).name

/-- The texts of a list, with commas between them. -/
def listText : List Expr → String
  | [] => ""
  | [e] => exprText e
  | e :: es => exprText e ++ ", " ++ listText es

/-- The text of a statement. An empty alternative is left out. -/
def stmtText : Stmt → String
  | .branch cond whenTrue whenFalse =>
    "if (" ++ exprText cond ++ ") \x7b" ++ stmtsText whenTrue ++ " \x7d" ++
      (if whenFalse.isEmpty then "" else " else \x7b" ++ stmtsText whenFalse ++ " \x7d")
  | .result value => "return " ++ exprText value ++ ";"
  | .declare name ty init => "let " ++ name ++ ": " ++ types.name ty ++ " = " ++ exprText init ++ ";"
  | .assign name value => name ++ " = " ++ exprText value ++ ";"

/-- The texts of a list of statements, each after a space. -/
def stmtsText : List Stmt → String
  | [] => ""
  | s :: ss => " " ++ stmtText s ++ stmtsText ss

end

end Printer

/-- The text of an expression, with instances shown by `label` where it gives one. -/
def Expr.text (types : Registry) (label : InstanceId → Option String) (e : Expr) : String :=
  Printer.exprText types label e

end ObjectGraph
