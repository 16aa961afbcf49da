import ObjectGraph.Tree.Basic

/-!
# Equality of trees

Two trees are equal when they have the same forms in the same places, with equal names, types and
literals. Floats are compared as numbers, so that a tree with a literal that is not a number
differs from itself, and the two zeros are one.
-/

namespace ObjectGraph

/-- Equality of scalars of one type; scalars of different types differ. -/
def Scalar.beq : Scalar → Scalar → Bool
  | .int a, .int b => a == b
  | .float a, .float b => a == b
  | .string a, .string b => a == b
  | .bool a, .bool b => a == b
  | _, _ => false

mutual

/-- Equality of expressions. -/
def Expr.beq : Expr → Expr → Bool
  | .scalar a, .scalar b => a.beq b
  | .array as s, .array bs t => s = t && beqAll as bs
  | .object a, .object b => a = b
  | .this s, .this t => s = t
  | .param a s, .param b t => a = b && s = t
  | .variable a s, .variable b t => a = b && s = t
  | .member a n s, .member b m t => n = m && s = t && a.beq b
  | .index a i s, .index b j t => s = t && a.beq b && i.beq j
  | .binary o a c s, .binary p b d t => o = p && s = t && a.beq b && c.beq d
  | .unary o a s, .unary p b t => o = p && s = t && a.beq b
  | .new s as, .new t bs => s = t && beqAll as bs
  | .call a as x s, .call b bs y t => x = y && s = t && a.beq b && beqAll as bs
  | .hooked a h s, .hooked b k t => h = k && s = t && a.beq b
  | .promise a s, .promise b t => a = b && s = t
  | .missing s, .missing t => s = t
  | .scoped a e, .scoped b f => a = b && e.beq f
  | .block ss s, .block us t => s = t && beqStmts ss us
  | .unbound a, .unbound b => a = b
  | .function a r, .function b q => a = b && r = q
  | _, _ => false
termination_by structural e => e

/-- Equality of lists of expressions, place by place. -/
def beqAll : List Expr → List Expr → Bool
  | [], [] => true
  | a :: as, b :: bs => a.beq b && beqAll as bs
  | _, _ => false
termination_by structural es => es

/-- Equality of statements. -/
def Stmt.beq : Stmt → Stmt → Bool
  | .branch a as bs, .branch b cs ds => a.beq b && beqStmts as cs && beqStmts bs ds
  | .result a, .result b => a.beq b
  | .declare n s a, .declare m t b => n = m && s = t && a.beq b
  | .assign n a, .assign m b => n = m && a.beq b
  | _, _ => false
termination_by structural s => s

/-- Equality of lists of statements, place by place. -/
def beqStmts : List Stmt → List Stmt → Bool
  | [], [] => true
  | a :: as, b :: bs => a.beq b && beqStmts as bs
  | _, _ => false
termination_by structural ss => ss

end

instance : BEq Expr := ⟨Expr.beq⟩
instance : BEq Stmt := ⟨Stmt.beq⟩

end ObjectGraph
