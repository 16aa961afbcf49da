import ObjectGraph.Types.Shape

/-!
# Closed expressions

An expression is closed when it means the same outside of the scope it is bound to. It must not
refer to the receiver, to parameters or to variables, must hold no statements, and must have no
type or generic argument that only the scope's calls could make concrete. Expressions that are
bound to a scope of their own are closed whatever they hold.
-/

namespace ObjectGraph

/-- Whether the type recorded on a node, or a generic argument of a call, mentions a
placeholder. -/
def Expr.mentionsPlaceholder (types : Registry) (e : Expr) : Bool :=
  e.declaredTy.any types.containsPlaceholder ||
    match e with
    | .call _ _ typeArgs _ => typeArgs.any fun arg => types.containsPlaceholder arg.2
    | _ => false

section Closed

variable (types : Registry)

mutual

/-- Whether an expression needs nothing from the scope around it. -/
def Expr.isClosed (e : Expr) : Bool :=
  match e with
  | .this _ | .param _ _ | .variable _ _ | .block _ _ | .unbound _ | .array _ _
  | .unary .typeOf _ _ => false
  | .scoped _ _ => true
  | .member object _ _ => !e.mentionsPlaceholder types && object.isClosed
  | .index object index _ => !e.mentionsPlaceholder types && object.isClosed && index.isClosed
  | .binary _ lhs rhs _ => !e.mentionsPlaceholder types && lhs.isClosed && rhs.isClosed
  | .unary _ operand _ => !e.mentionsPlaceholder types && operand.isClosed
  | .new _ args => !e.mentionsPlaceholder types && allClosed args
  | .call callee args _ _ => !e.mentionsPlaceholder types && callee.isClosed && allClosed args
  | .hooked operand _ _ => !e.mentionsPlaceholder types && operand.isClosed
  | .scalar _ | .object _ | .promise _ _ | .missing _ | .function _ _ =>
    !e.mentionsPlaceholder types

/-- Whether every expression of a list is closed. -/
def allClosed : List Expr → Bool
  | [] => true
  | e :: es => e.isClosed && allClosed es

end

end Closed

end ObjectGraph
