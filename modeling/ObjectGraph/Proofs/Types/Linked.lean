import ObjectGraph.Proofs.Tree.Everywhere
import ObjectGraph.Proofs.Types.Placeholders

/-!
# Programs that mention registered types only

Expressions and definitions record types all over. Types are named by their positions, and a
position that is not registered now may be that of another type later. So it matters that whatever
is recorded is below the size of the registry (`Expr.TypesBelow`, `Registry.Linked`). It stays so
while a registry grows, and requests for array types and function types leave definitions as they
are (`Registry.Linked.formed`).
-/

namespace ObjectGraph

/-- The types of literals are built in. -/
theorem Scalar.ty_lt (value : Scalar) : value.ty.index < TypeId.builtinCount := by
  cases value with
  | int _ => exact (by decide : TypeId.int.index < TypeId.builtinCount)
  | float _ => exact (by decide : TypeId.float.index < TypeId.builtinCount)
  | string _ => exact (by decide : TypeId.string.index < TypeId.builtinCount)
  | bool _ => exact (by decide : TypeId.bool.index < TypeId.builtinCount)

/-! ## Expressions -/

/-- The types that an expression itself records, besides its children. -/
def Expr.ownTypes : Expr → List TypeId
  | .array _ ty | .this ty | .param _ ty | .variable _ ty | .member _ _ ty | .index _ _ ty
  | .binary _ _ _ ty | .unary _ _ ty | .hooked _ _ ty | .promise _ ty | .missing ty
  | .new ty _ | .block _ ty => [ty]
  | .call _ _ typeArgs ty => ty :: typeArgs.map (·.2)
  | .scalar _ | .object _ | .scoped _ _ | .unbound _ | .function _ _ => []

/-- All types in the tree are below the bound. -/
def Expr.TypesBelow (n : ℕ) (e : Expr) : Prop :=
  e.Everywhere fun t => ∀ ty ∈ t.ownTypes, ty.index < n

/-- All types that expressions in the statement record are below the bound. -/
def Stmt.TypesBelow (n : ℕ) (s : Stmt) : Prop :=
  s.Everywhere fun t => ∀ ty ∈ t.ownTypes, ty.index < n

/-- Whether all types in a tree are below a bound can be decided by going over it. -/
instance Expr.TypesBelow.instDecidable (n : ℕ) (e : Expr) : Decidable (e.TypesBelow n) :=
  inferInstanceAs (Decidable (∀ t ∈ e.preorder, ∀ ty ∈ t.ownTypes, ty.index < n))

section TypesBelow

variable {m n : ℕ} {ty : TypeId} {name : String} {e a b : Expr} {es : List Expr} {s : Stmt}
variable {ss ss' : List Stmt}

/-- What is below a bound is below a greater one. -/
theorem Expr.TypesBelow.mono (h : e.TypesBelow m) (hmn : m ≤ n) : e.TypesBelow n :=
  Expr.Everywhere.mono h fun _ ht ty hty => Nat.lt_of_lt_of_le (ht ty hty) hmn

/-- What is below a bound is below a greater one. -/
theorem Stmt.TypesBelow.mono (h : s.TypesBelow m) (hmn : m ≤ n) : s.TypesBelow n :=
  Stmt.Everywhere.mono h fun _ ht ty hty => Nat.lt_of_lt_of_le (ht ty hty) hmn

namespace Expr

@[simp] theorem typesBelow_scalar (value : Scalar) : (scalar value).TypesBelow n :=
  everywhere_scalar.mpr (List.forall_mem_nil _)

@[simp] theorem typesBelow_object (id : InstanceId) : (object id).TypesBelow n :=
  everywhere_object.mpr (List.forall_mem_nil _)

@[simp] theorem typesBelow_unbound (m : MethodRef) : (unbound m).TypesBelow n :=
  everywhere_unbound.mpr (List.forall_mem_nil _)

@[simp] theorem typesBelow_function (m : MethodRef) (id : InstanceId) :
    (function m id).TypesBelow n :=
  everywhere_function.mpr (List.forall_mem_nil _)

@[simp] theorem typesBelow_missing : (missing ty).TypesBelow n ↔ ty.index < n :=
  everywhere_missing.trans List.forall_mem_singleton

@[simp] theorem typesBelow_promise {id : PromiseId} :
    (promise id ty).TypesBelow n ↔ ty.index < n :=
  everywhere_promise.trans List.forall_mem_singleton

@[simp] theorem typesBelow_array :
    (array es ty).TypesBelow n ↔ ty.index < n ∧ ∀ e ∈ es, e.TypesBelow n :=
  everywhere_array.trans (and_congr_left' List.forall_mem_singleton)

@[simp] theorem typesBelow_member :
    (member a name ty).TypesBelow n ↔ ty.index < n ∧ a.TypesBelow n :=
  everywhere_member.trans (and_congr_left' List.forall_mem_singleton)

@[simp] theorem typesBelow_index :
    (index a b ty).TypesBelow n ↔ ty.index < n ∧ a.TypesBelow n ∧ b.TypesBelow n :=
  everywhere_index.trans (and_congr_left' List.forall_mem_singleton)

@[simp] theorem typesBelow_binary {op : BinaryOp} :
    (binary op a b ty).TypesBelow n ↔ ty.index < n ∧ a.TypesBelow n ∧ b.TypesBelow n :=
  everywhere_binary.trans (and_congr_left' List.forall_mem_singleton)

@[simp] theorem typesBelow_unary {op : UnaryOp} :
    (unary op a ty).TypesBelow n ↔ ty.index < n ∧ a.TypesBelow n :=
  everywhere_unary.trans (and_congr_left' List.forall_mem_singleton)

@[simp] theorem typesBelow_new :
    (new ty es).TypesBelow n ↔ ty.index < n ∧ ∀ e ∈ es, e.TypesBelow n :=
  everywhere_new.trans (and_congr_left' List.forall_mem_singleton)

@[simp] theorem typesBelow_call {typeArgs : TypeArgs} :
    (call a es typeArgs ty).TypesBelow n ↔
      (ty.index < n ∧ ∀ arg ∈ typeArgs, arg.2.index < n) ∧ a.TypesBelow n ∧
        ∀ e ∈ es, e.TypesBelow n :=
  everywhere_call.trans (and_congr_left'
    (List.forall_mem_cons.trans (and_congr_right' List.forall_mem_map)))

@[simp] theorem typesBelow_hooked {hook : HookId} :
    (hooked a hook ty).TypesBelow n ↔ ty.index < n ∧ a.TypesBelow n :=
  everywhere_hooked.trans (and_congr_left' List.forall_mem_singleton)

@[simp] theorem typesBelow_scoped {s : ScopeId} :
    (Expr.scoped s a).TypesBelow n ↔ a.TypesBelow n :=
  everywhere_scoped.trans (and_iff_right (List.forall_mem_nil _))

@[simp] theorem typesBelow_block :
    (block ss ty).TypesBelow n ↔ ty.index < n ∧ ∀ s ∈ ss, s.TypesBelow n :=
  everywhere_block.trans (and_congr_left' List.forall_mem_singleton)

/-- Closing an expression over a scope adds no types. -/
@[simp] theorem typesBelow_closeOver {scope : Option ScopeId} :
    (a.closeOver scope).TypesBelow n ↔ a.TypesBelow n := by
  unfold closeOver
  split
  · split <;> simp
  · rfl

/-- The type that lowering has recorded on a node is below the bound. -/
theorem TypesBelow.declaredTy (hn : TypeId.builtinCount ≤ n) :
    ∀ {e : Expr}, e.TypesBelow n → ∀ ty ∈ e.declaredTy, ty.index < n
  | .scalar value, _, ty, hty => by
    obtain rfl := Option.some.inj hty
    exact Nat.lt_of_lt_of_le value.ty_lt hn
  | .scoped s body, h, ty, hty => TypesBelow.declaredTy hn (typesBelow_scoped.mp h) ty hty
  | .array .., h, ty, hty | .this .., h, ty, hty | .param .., h, ty, hty | .variable .., h, ty, hty
  | .member .., h, ty, hty | .index .., h, ty, hty | .binary .., h, ty, hty | .unary .., h, ty, hty
  | .new .., h, ty, hty | .call .., h, ty, hty | .hooked .., h, ty, hty | .promise .., h, ty, hty
  | .missing .., h, ty, hty | .block .., h, ty, hty => by
    obtain rfl := Option.some.inj hty
    exact h _ List.mem_cons_self _ List.mem_cons_self
  | .object _, _, ty, hty | .unbound _, _, ty, hty | .function .., _, ty, hty => by cases hty

end Expr

namespace Stmt

@[simp] theorem typesBelow_result : (result a).TypesBelow n ↔ a.TypesBelow n := Iff.rfl

@[simp] theorem typesBelow_declare : (declare name ty a).TypesBelow n ↔ a.TypesBelow n := Iff.rfl

@[simp] theorem typesBelow_assign : (assign name a).TypesBelow n ↔ a.TypesBelow n := Iff.rfl

@[simp] theorem typesBelow_branch :
    (branch a ss ss').TypesBelow n ↔
      a.TypesBelow n ∧ (∀ s ∈ ss, s.TypesBelow n) ∧ ∀ s ∈ ss', s.TypesBelow n :=
  everywhere_branch

end Stmt

end TypesBelow

/-! ## Definitions -/

/-- All types that the members of a definition record are below the bound. -/
structure TypeDef.TypesBelow (n : ℕ) (d : TypeDef) : Prop where
  /-- Those in expressions. -/
  exprs : ∀ e ∈ d.exprs, e.TypesBelow n
  /-- Those of constructor parameters. -/
  params : ∀ p ∈ d.params, p.ty.index < n
  /-- Those of properties. -/
  properties : ∀ p ∈ d.properties, p.ty.index < n
  /-- Those of methods. -/
  methods : ∀ m ∈ d.methods, m.result.index < n ∧ ∀ p ∈ m.params, p.ty.index < n

/-- Whether the types of a definition are below a bound can be decided. -/
instance TypeDef.TypesBelow.instDecidable (n : ℕ) (d : TypeDef) : Decidable (d.TypesBelow n) :=
  decidable_of_iff ((∀ e ∈ d.exprs, e.TypesBelow n) ∧ (∀ p ∈ d.params, p.ty.index < n) ∧
      (∀ p ∈ d.properties, p.ty.index < n) ∧
      ∀ m ∈ d.methods, m.result.index < n ∧ ∀ p ∈ m.params, p.ty.index < n)
    ⟨fun ⟨he, hparams, hproperties, hmethods⟩ => ⟨he, hparams, hproperties, hmethods⟩,
      fun h => ⟨h.exprs, h.params, h.properties, h.methods⟩⟩

/-- What is below a bound is below a greater one. -/
theorem TypeDef.TypesBelow.mono {m n : ℕ} {d : TypeDef} (h : d.TypesBelow m) (hmn : m ≤ n) :
    d.TypesBelow n where
  exprs e he := (h.exprs e he).mono hmn
  params p hp := Nat.lt_of_lt_of_le (h.params p hp) hmn
  properties p hp := Nat.lt_of_lt_of_le (h.properties p hp) hmn
  methods m hm := ⟨Nat.lt_of_lt_of_le (h.methods m hm).1 hmn, fun p hp =>
    Nat.lt_of_lt_of_le ((h.methods m hm).2 p hp) hmn⟩

/-- A definition without members records no types in them. -/
theorem TypeDef.typesBelow_of_memberless {n : ℕ} {d : TypeDef} (hparentArgs : d.parentArgs = [])
    (hparams : d.params = []) (hproperties : d.properties = []) (hmethods : d.methods = []) :
    d.TypesBelow n := by
  constructor <;> simp [TypeDef.exprs, hparentArgs, hparams, hproperties, hmethods]

namespace Registry

variable {base r : Registry}

/-- Every type that a definition's members record is registered. -/
def Linked (r : Registry) : Prop := ∀ ty, (r.definition ty).TypesBelow r.size

/-- It is enough to look at the definitions that there are. -/
theorem linked_of_forall (h : ∀ d ∈ r.defs, d.TypesBelow r.size) : r.Linked := by
  intro ty
  by_cases hty : ty.index < r.size
  · refine h _ ?_
    rw [definition, Array.getD_eq_getD_getElem?, Array.getElem?_eq_getElem hty]
    exact Array.getElem_mem hty
  · rw [definition_of_le (Nat.le_of_not_lt hty)]
    exact TypeDef.typesBelow_of_memberless rfl rfl rfl rfl

/-- The answer to a request adds no members. -/
theorem Linked.answer (h : r.Linked) (q : Request) : (q.answer r).2.Linked := by
  rw [q.answer_eq, findOrInsert]
  cases r.find? (q.definition r).key with
  | some _ => exact h
  | none =>
    intro ty
    have hsize : r.size ≤ (insert (q.definition r) r).2.size := (Extends.insert _).size
    rw [definition_insert]
    by_cases hnew : ty.index = r.size
    · rw [if_pos hnew]
      cases q <;> exact TypeDef.typesBelow_of_memberless rfl rfl rfl rfl
    · rw [if_neg hnew]
      exact (h ty).mono hsize

/-- What evaluation asks for adds no members. -/
theorem Linked.formed (h : base.Linked) (hr : base.Formed r) : r.Linked := by
  induction hr with
  | refl => exact h
  | tail _ hf ih =>
    obtain ⟨q, -, -⟩ := hf
    exact ih.answer q

/-- A method's signature is registered, and so is that of a method that there is not. -/
theorem Linked.method (h : r.Linked) (hsize : 0 < r.size) (m : MethodRef) :
    (r.method m).result.index < r.size ∧ ∀ p ∈ (r.method m).params, p.ty.index < r.size := by
  rw [Registry.method, List.getD_eq_getElem?_getD]
  cases hm : (r.definition m.owner).methods[m.index]? with
  | none => exact ⟨hsize, fun p hp => by cases hp⟩
  | some method => exact (h m.owner).methods method (List.mem_of_getElem? hm)

end Registry

end ObjectGraph
