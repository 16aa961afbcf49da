import ObjectGraph.Tree.Basic

/-!
# Traversals

Two traversals visit every expression of a tree, those inside statements included, parents before
children and children in the order in which they are written. `Expr.preorder` lists what it
meets. `Expr.rebuild` copies the tree and lets a fold step in at any expression: to replace it,
to stop with an error, or to pass and have its children visited.
-/

namespace ObjectGraph

mutual

/-- The expression and every expression below it, parents first. -/
def Expr.preorder (e : Expr) : List Expr :=
  e :: (match e with
    | .array elements _ => preorderAll elements
    | .member object _ _ => object.preorder
    | .index object index _ => object.preorder ++ index.preorder
    | .binary _ lhs rhs _ => lhs.preorder ++ rhs.preorder
    | .unary _ operand _ => operand.preorder
    | .new _ args => preorderAll args
    | .call callee args _ _ => callee.preorder ++ preorderAll args
    | .hooked operand _ _ => operand.preorder
    | .scoped _ body => body.preorder
    | .block stmts _ => preorderStmts stmts
    | .scalar _ | .object _ | .this _ | .param _ _ | .variable _ _ | .promise _ _ | .missing _
    | .unbound _ | .function _ _ => [])

/-- The expressions of each tree in a list, one tree after the other. -/
def preorderAll : List Expr → List Expr
  | [] => []
  | e :: es => e.preorder ++ preorderAll es

/-- The expressions inside a statement. -/
def Stmt.preorder : Stmt → List Expr
  | .branch cond whenTrue whenFalse =>
    cond.preorder ++ preorderStmts whenTrue ++ preorderStmts whenFalse
  | .result value => value.preorder
  | .declare _ _ init => init.preorder
  | .assign _ value => value.preorder

/-- The expressions inside each statement of a list. -/
def preorderStmts : List Stmt → List Expr
  | [] => []
  | s :: ss => s.preorder ++ preorderStmts ss

end

/-- What a rebuilding traversal does on its way down. -/
structure Fold (m : Type → Type) where
  /-- Looks at an expression before its children. It answers the expression to put in its place,
  or nothing to have the children visited. -/
  enter : Expr → m (Option Expr)
  /-- Renames what statements declare and assign. -/
  rename : String → String

section Rebuild

variable {m : Type → Type} [Monad m]

mutual

/-- Copies a tree from the top down under a fold. -/
def Expr.rebuild (fold : Fold m) (e : Expr) : m Expr := do
  match ← fold.enter e with
  | some replacement => pure replacement
  | none =>
    match e with
    | .array elements ty => return .array (← rebuildAll fold elements) ty
    | .member object name ty => return .member (← object.rebuild fold) name ty
    | .index object index ty => do
      let object ← object.rebuild fold
      return .index object (← index.rebuild fold) ty
    | .binary op lhs rhs ty => do
      let lhs ← lhs.rebuild fold
      return .binary op lhs (← rhs.rebuild fold) ty
    | .unary op operand ty => return .unary op (← operand.rebuild fold) ty
    | .new cls args => return .new cls (← rebuildAll fold args)
    | .call callee args typeArgs ty => do
      let callee ← callee.rebuild fold
      return .call callee (← rebuildAll fold args) typeArgs ty
    | .hooked operand hook ty => return .hooked (← operand.rebuild fold) hook ty
    | .scoped scope body => return .scoped scope (← body.rebuild fold)
    | .block stmts result => return .block (← rebuildStmts fold stmts) result
    | .scalar value => pure (.scalar value)
    | .object id => pure (.object id)
    | .this ty => pure (.this ty)
    | .param name ty => pure (.param name ty)
    | .variable name ty => pure (.variable name ty)
    | .promise id ty => pure (.promise id ty)
    | .missing ty => pure (.missing ty)
    | .unbound method => pure (.unbound method)
    | .function method receiver => pure (.function method receiver)

/-- Copies a list of trees from left to right. -/
def rebuildAll (fold : Fold m) : List Expr → m (List Expr)
  | [] => pure []
  | e :: es => do
    let e ← e.rebuild fold
    return e :: (← rebuildAll fold es)

/-- Copies a statement: its condition or value first, then the branches. -/
def Stmt.rebuild (fold : Fold m) : Stmt → m Stmt
  | .branch cond whenTrue whenFalse => do
    let cond ← cond.rebuild fold
    let whenTrue ← rebuildStmts fold whenTrue
    return .branch cond whenTrue (← rebuildStmts fold whenFalse)
  | .result value => return .result (← value.rebuild fold)
  | .declare name ty init => return .declare (fold.rename name) ty (← init.rebuild fold)
  | .assign name value => return .assign (fold.rename name) (← value.rebuild fold)

/-- Copies a list of statements in order. -/
def rebuildStmts (fold : Fold m) : List Stmt → m (List Stmt)
  | [] => pure []
  | s :: ss => do
    let s ← s.rebuild fold
    return s :: (← rebuildStmts fold ss)

end

end Rebuild

end ObjectGraph
