import ObjectGraph.Tree.Traverse

/-!
# Sample folds

Folds for `Expr.rebuild` that step in at one form of expression and leave the others to the
traversal.
-/

namespace ObjectGraph.Fold

variable {m : Type → Type} [Monad m]

/-- Steps in nowhere, so that the copy is like the tree. -/
def identity : Fold m where
  enter _ := pure none
  rename := id

/-- Adds one to each integer literal. The greatest integer becomes the least. -/
def increment : Fold m where
  enter
    | .scalar (.int value) => pure (some (.int (value + 1)))
    | _ => pure none
  rename := id

/-- Renames variables, both where they are read and where statements declare or assign them. -/
def relabel (f : String → String) : Fold m where
  enter
    | .variable name ty => pure (some (.variable (f name) ty))
    | _ => pure none
  rename := f

/-- Stops at a variable of the given name, with the name as the error. -/
def refusing (name : String) : Fold (Except String) where
  enter
    | .variable found _ => if found = name then .error name else .ok none
    | _ => .ok none
  rename := id

end ObjectGraph.Fold
