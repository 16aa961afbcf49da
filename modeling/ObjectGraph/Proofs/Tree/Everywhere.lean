import ObjectGraph.Tree.Traverse

/-!
# What holds all over a tree

A property of nodes holds all over a tree if it holds of the node at its root and all over its
children, those inside of statements included. Each form of expression has its own lemma, by which
what is said of nodes is taken apart and put together with the trees.
-/

namespace ObjectGraph

/-- The property holds of every expression in the tree. -/
def Expr.Everywhere (P : Expr → Prop) (e : Expr) : Prop := ∀ t ∈ e.preorder, P t

/-- The property holds of every expression in the statement. -/
def Stmt.Everywhere (P : Expr → Prop) (s : Stmt) : Prop := ∀ t ∈ s.preorder, P t

variable {P Q : Expr → Prop} {e a b : Expr} {es : List Expr} {s : Stmt} {ss ss' : List Stmt}
variable {ty : TypeId} {name : String}

/-- What follows of each node follows of the tree. -/
theorem Expr.Everywhere.mono (h : e.Everywhere P) (hPQ : ∀ t, P t → Q t) : e.Everywhere Q :=
  fun t ht => hPQ t (h t ht)

/-- What follows of each node follows of the statement. -/
theorem Stmt.Everywhere.mono (h : s.Everywhere P) (hPQ : ∀ t, P t → Q t) : s.Everywhere Q :=
  fun t ht => hPQ t (h t ht)

/-! ## Lists -/

/-- The expressions of a list of trees are those of each. -/
theorem forall_preorderAll :
    (∀ t ∈ preorderAll es, P t) ↔ ∀ e ∈ es, e.Everywhere P := by
  induction es with
  | nil => simp [preorderAll]
  | cons e es ih => simp [preorderAll, or_imp, forall_and, ih, Expr.Everywhere]

/-- The expressions of a list of statements are those of each. -/
theorem forall_preorderStmts :
    (∀ t ∈ preorderStmts ss, P t) ↔ ∀ s ∈ ss, s.Everywhere P := by
  induction ss with
  | nil => simp [preorderStmts]
  | cons s ss ih => simp [preorderStmts, or_imp, forall_and, ih, Stmt.Everywhere]

/-! ## Expressions -/

namespace Expr

@[simp] theorem everywhere_scalar {value : Scalar} :
    (scalar value).Everywhere P ↔ P (.scalar value) := List.forall_mem_singleton

@[simp] theorem everywhere_object {id : InstanceId} :
    (object id).Everywhere P ↔ P (.object id) := List.forall_mem_singleton

@[simp] theorem everywhere_this : (this ty).Everywhere P ↔ P (.this ty) :=
  List.forall_mem_singleton

@[simp] theorem everywhere_param : (param name ty).Everywhere P ↔ P (.param name ty) :=
  List.forall_mem_singleton

@[simp] theorem everywhere_variable :
    (Expr.variable name ty).Everywhere P ↔ P (.variable name ty) := List.forall_mem_singleton

@[simp] theorem everywhere_promise {id : PromiseId} :
    (promise id ty).Everywhere P ↔ P (.promise id ty) := List.forall_mem_singleton

@[simp] theorem everywhere_missing : (missing ty).Everywhere P ↔ P (.missing ty) :=
  List.forall_mem_singleton

@[simp] theorem everywhere_unbound {m : MethodRef} :
    (unbound m).Everywhere P ↔ P (.unbound m) := List.forall_mem_singleton

@[simp] theorem everywhere_function {m : MethodRef} {id : InstanceId} :
    (function m id).Everywhere P ↔ P (.function m id) := List.forall_mem_singleton

@[simp] theorem everywhere_array :
    (array es ty).Everywhere P ↔ P (.array es ty) ∧ ∀ e ∈ es, e.Everywhere P :=
  List.forall_mem_cons.trans (and_congr_right' forall_preorderAll)

@[simp] theorem everywhere_member :
    (member a name ty).Everywhere P ↔ P (.member a name ty) ∧ a.Everywhere P :=
  List.forall_mem_cons

@[simp] theorem everywhere_index :
    (index a b ty).Everywhere P ↔ P (.index a b ty) ∧ a.Everywhere P ∧ b.Everywhere P :=
  List.forall_mem_cons.trans (and_congr_right' List.forall_mem_append)

@[simp] theorem everywhere_binary {op : BinaryOp} :
    (binary op a b ty).Everywhere P ↔ P (.binary op a b ty) ∧ a.Everywhere P ∧ b.Everywhere P :=
  List.forall_mem_cons.trans (and_congr_right' List.forall_mem_append)

@[simp] theorem everywhere_unary {op : UnaryOp} :
    (unary op a ty).Everywhere P ↔ P (.unary op a ty) ∧ a.Everywhere P :=
  List.forall_mem_cons

@[simp] theorem everywhere_new :
    (new ty es).Everywhere P ↔ P (.new ty es) ∧ ∀ e ∈ es, e.Everywhere P :=
  List.forall_mem_cons.trans (and_congr_right' forall_preorderAll)

@[simp] theorem everywhere_call {typeArgs : TypeArgs} :
    (call a es typeArgs ty).Everywhere P ↔
      P (.call a es typeArgs ty) ∧ a.Everywhere P ∧ ∀ e ∈ es, e.Everywhere P :=
  List.forall_mem_cons.trans (and_congr_right'
    (List.forall_mem_append.trans (and_congr_right' forall_preorderAll)))

@[simp] theorem everywhere_hooked {hook : HookId} :
    (hooked a hook ty).Everywhere P ↔ P (.hooked a hook ty) ∧ a.Everywhere P :=
  List.forall_mem_cons

@[simp] theorem everywhere_scoped {s : ScopeId} :
    (Expr.scoped s a).Everywhere P ↔ P (.scoped s a) ∧ a.Everywhere P :=
  List.forall_mem_cons

@[simp] theorem everywhere_block :
    (block ss ty).Everywhere P ↔ P (.block ss ty) ∧ ∀ s ∈ ss, s.Everywhere P :=
  List.forall_mem_cons.trans (and_congr_right' forall_preorderStmts)

end Expr

/-! ## Statements -/

namespace Stmt

@[simp] theorem everywhere_result : (result a).Everywhere P ↔ a.Everywhere P := Iff.rfl

@[simp] theorem everywhere_declare : (declare name ty a).Everywhere P ↔ a.Everywhere P := Iff.rfl

@[simp] theorem everywhere_assign : (assign name a).Everywhere P ↔ a.Everywhere P := Iff.rfl

@[simp] theorem everywhere_branch :
    (branch a ss ss').Everywhere P ↔
      a.Everywhere P ∧ (∀ s ∈ ss, s.Everywhere P) ∧ ∀ s ∈ ss', s.Everywhere P := by
  show (∀ t ∈ a.preorder ++ preorderStmts ss ++ preorderStmts ss', P t) ↔ _
  rw [List.forall_mem_append, List.forall_mem_append, forall_preorderStmts, forall_preorderStmts,
    and_assoc]
  rfl

end Stmt

end ObjectGraph
