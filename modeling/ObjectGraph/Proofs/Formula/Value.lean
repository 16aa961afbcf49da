import ObjectGraph.Proofs.Formula.Scalars
import ObjectGraph.Proofs.Heap.Extension

/-!
# Formulas and their values

A formula is an expression that computes a scalar: literals, scalar instances, names, members of
plain objects, and operators other than the short-circuit ones and `typeof`. The names and members
of a formula lead to cells. A `Valuation` gives these cells their values once and for all, so that
the value of a formula is fixed before anything is evaluated, and evaluation has to keep it.

`Expr.weight` counts what there is left to do in an expression. Each reduction takes something
away from it.
-/

namespace ObjectGraph

namespace Heap

variable (h : Heap)

/-- The cell that a name leads to. -/
def nameCell? (scope : Option ScopeId) (name : String) : Option Cell :=
  (scope.bind (h.lookup? · name)).map fun found => .binding found.scope found.index

/-- The cell of an instance's property. -/
def slotCell? (id : InstanceId) (name : String) : Option Cell :=
  ((h.get id).slots.findIdx? (·.name == name)).map (.slot id)

/-- The instance whose members are meant: the receiver, or one that is given as such. -/
def subject? (scope : Option ScopeId) : Expr → Option InstanceId
  | .this _ => scope.bind h.receiver?
  | .object id => some id
  | _ => none

/-- The cell that a member leads to. -/
def memberCell? (scope : Option ScopeId) (object : Expr) (name : String) : Option Cell :=
  (h.subject? scope object).bind (h.slotCell? · name)

/-- The scalar that an instance carries. -/
def scalar? (id : InstanceId) : Option Scalar :=
  match (h.get id).payload with
  | .scalar v => some v
  | _ => none

end Heap

/-- What a set of cells comes to. -/
structure Valuation where
  /-- The cells. -/
  cells : List Cell
  /-- The value of each cell; none if it cannot be computed. -/
  value : Cell → Option Scalar
  /-- The cells that a cell's value is computed from have a lower rank. -/
  rank : Cell → ℕ

section Formula

variable (V : Valuation) (h : Heap)

/-- The value of a formula that lies in a scope. -/
def Expr.valueIn (scope : Option ScopeId) : Expr → Option Scalar
  | .scalar v => some v
  | .object id => h.scalar? id
  | .param name _ | .variable name _ => (h.nameCell? scope name).bind V.value
  | .member subject name _ => (h.memberCell? scope subject name).bind V.value
  | .binary op lhs rhs _ => do
    let a ← lhs.valueIn scope
    let b ← rhs.valueIn scope
    (op.onScalars a b).toOption
  | .unary op operand _ => do (op.onScalar (← operand.valueIn scope)).toOption
  | .scoped inner body => body.valueIn (some inner)
  | _ => none

/-- The cells that a formula reads. -/
def Expr.reads (scope : Option ScopeId) : Expr → List Cell
  | .param name _ | .variable name _ => (h.nameCell? scope name).toList
  | .member subject name _ => (h.memberCell? scope subject name).toList
  | .binary _ lhs rhs _ => lhs.reads scope ++ rhs.reads scope
  | .unary _ operand _ => operand.reads scope
  | .scoped inner body => body.reads (some inner)
  | _ => []

/-- An expression that computes a scalar from the cells of a valuation. -/
inductive Expr.Formula : Option ScopeId → Expr → Prop where
  /-- A literal. -/
  | scalar {scope} (v : Scalar) : Formula scope (.scalar v)
  /-- An instance that carries a scalar. -/
  | object {scope id v} : h.IsScalar id v → Formula scope (.object id)
  /-- A parameter. -/
  | param {scope name c} (ty : TypeId) :
    h.nameCell? scope name = some c → c ∈ V.cells → Formula scope (.param name ty)
  /-- A variable. -/
  | localVar {scope name c} (ty : TypeId) :
    h.nameCell? scope name = some c → c ∈ V.cells → Formula scope (.variable name ty)
  /-- A property. -/
  | member {scope object name c} (ty : TypeId) :
    h.memberCell? scope object name = some c → c ∈ V.cells →
    Formula scope (.member object name ty)
  /-- A binary operation that needs both operands. -/
  | binary {scope op lhs rhs} (ty : TypeId) :
    op ≠ .and → op ≠ .or → Formula scope lhs → Formula scope rhs →
    Formula scope (.binary op lhs rhs ty)
  /-- A unary operation that needs its operand. -/
  | unary {scope op operand} (ty : TypeId) :
    op ≠ .typeOf → Formula scope operand → Formula scope (.unary op operand ty)
  /-- A formula that lies in a scope of its own. -/
  | within {scope inner body} :
    Formula (some inner) body → Formula scope (.scoped inner body)

end Formula

mutual

/-- How much there is left to do in an expression. -/
def Expr.weight : Expr → ℕ
  | .scalar _ | .this _ | .param _ _ | .variable _ _ => 1
  | .member subject _ _ => subject.weight + 1
  | .binary _ lhs rhs _ => lhs.weight + rhs.weight + 2
  | .unary _ operand _ => operand.weight + 2
  | .scoped _ body => body.weight + 1
  | .block stmts _ => stmtsWeight stmts + 1
  | _ => 0

/-- How much there is left to do in a statement. -/
def Stmt.weight : Stmt → ℕ
  | .branch cond whenTrue whenFalse =>
    cond.weight + stmtsWeight whenTrue + stmtsWeight whenFalse + 1
  | .result value => value.weight + 1
  | .declare _ _ init => init.weight + 3
  | .assign _ value => value.weight + 1

/-- How much there is left to do in a list of statements. -/
def stmtsWeight : List Stmt → ℕ
  | [] => 0
  | s :: ss => s.weight + stmtsWeight ss

end

attribute [simp] Expr.weight Stmt.weight stmtsWeight

/-- What there is to do in two lists of statements. -/
theorem stmtsWeight_append (stmts stmts' : List Stmt) :
    stmtsWeight (stmts ++ stmts') = stmtsWeight stmts + stmtsWeight stmts' := by
  induction stmts with
  | nil => simp [stmtsWeight]
  | cons stmt stmts ih => simp only [List.cons_append, stmtsWeight, ih, Nat.add_assoc]

/-! ## Extensions keep formulas -/

section Extensions

variable {V : Valuation} {h h' : Heap} {scope : Option ScopeId}

/-- A name leads to the same cell in every extension. -/
theorem Heap.Extends.nameCell? (hx : h.Extends h') {name : String} {c : Cell}
    (hc : h.nameCell? scope name = some c) : h'.nameCell? scope name = some c := by
  obtain ⟨found, hl, rfl⟩ := Option.map_eq_some_iff.mp hc
  obtain ⟨s, rfl, hl⟩ := Option.bind_eq_some_iff.mp hl
  simp only [Heap.nameCell?, Option.bind_some, hx.lookup hl, Option.map_some]

/-- A property is at the same place in every extension. -/
theorem Heap.Extends.slotCell? (hx : h.Extends h') {id : InstanceId} {name : String} {c : Cell}
    (hc : h.slotCell? id name = some c) : h'.slotCell? id name = some c := by
  have hid : id.index < h.instances.size := by
    refine Nat.lt_of_not_le fun hle => ?_
    rw [Heap.slotCell?, Heap.get_of_le h hle] at hc
    cases hc
  have hmap (slots : List Slot) : slots.findIdx? (·.name == name) =
      (slots.map (·.name)).findIdx? (· == name) := by
    rw [List.findIdx?_map]
    rfl
  rw [Heap.slotCell?, hmap] at hc ⊢
  rw [hx.names hid, hc]

/-- The instance whose members are meant is the same in every extension. -/
theorem Heap.Extends.subject? (hx : h.Extends h') {object : Expr} {id : InstanceId}
    (ho : h.subject? scope object = some id) : h'.subject? scope object = some id := by
  cases object with
  | this ty =>
    obtain ⟨s, rfl, hr⟩ := Option.bind_eq_some_iff.mp ho
    exact hx.receiver hr
  | object id => exact ho
  | _ => cases ho

/-- A member leads to the same cell in every extension. -/
theorem Heap.Extends.memberCell? (hx : h.Extends h') {object : Expr} {name : String} {c : Cell}
    (hc : h.memberCell? scope object name = some c) :
    h'.memberCell? scope object name = some c := by
  obtain ⟨id, ho, hs⟩ := Option.bind_eq_some_iff.mp hc
  simp only [Heap.memberCell?, hx.subject? ho, Option.bind_some, hx.slotCell? hs]

/-- The value of a scalar instance. -/
theorem Heap.IsScalar.scalar? {id : InstanceId} {v : Scalar} (hv : h.IsScalar id v) :
    h.scalar? id = some v := by
  rw [Heap.scalar?, hv.payload]

namespace Expr.Formula

variable {e : Expr}

/-- A formula stays one in every extension. -/
theorem extend (hf : e.Formula V h scope) (hx : h.Extends h') : e.Formula V h' scope := by
  induction hf with
  | scalar v => exact .scalar v
  | object hv => exact .object (hv.extend hx)
  | param ty hc hm => exact .param ty (hx.nameCell? hc) hm
  | localVar ty hc hm => exact .localVar ty (hx.nameCell? hc) hm
  | member ty hc hm => exact .member ty (hx.memberCell? hc) hm
  | binary ty ha ho _ _ ihl ihr => exact .binary ty ha ho ihl ihr
  | unary ty ht _ ih => exact .unary ty ht ih
  | within _ ih => exact .within ih

/-- The value of a formula is the same in every extension. -/
theorem valueIn_extend (hf : e.Formula V h scope) (hx : h.Extends h') :
    e.valueIn V h' scope = e.valueIn V h scope := by
  induction hf with
  | scalar v => rfl
  | object hv => simp only [Expr.valueIn, hv.scalar?, (hv.extend hx).scalar?]
  | param ty hc hm => simp only [Expr.valueIn, hc, hx.nameCell? hc]
  | localVar ty hc hm => simp only [Expr.valueIn, hc, hx.nameCell? hc]
  | member ty hc hm => simp only [Expr.valueIn, hc, hx.memberCell? hc]
  | binary ty _ _ _ _ ihl ihr => simp only [Expr.valueIn, ihl, ihr]
  | unary ty _ _ ih => simp only [Expr.valueIn, ih]
  | within _ ih => simp only [Expr.valueIn, ih]

/-- A formula reads the same cells in every extension. -/
theorem reads_extend (hf : e.Formula V h scope) (hx : h.Extends h') :
    e.reads h' scope = e.reads h scope := by
  induction hf with
  | scalar v => rfl
  | object hv => rfl
  | param ty hc hm => simp only [Expr.reads, hc, hx.nameCell? hc]
  | localVar ty hc hm => simp only [Expr.reads, hc, hx.nameCell? hc]
  | member ty hc hm => simp only [Expr.reads, hc, hx.memberCell? hc]
  | binary ty _ _ _ _ ihl ihr => simp only [Expr.reads, ihl, ihr]
  | unary ty _ _ ih => simp only [Expr.reads, ih]
  | within _ ih => simp only [Expr.reads, ih]

/-- A formula reads cells of the valuation only. -/
theorem mem_cells (hf : e.Formula V h scope) {c : Cell} (hc : c ∈ e.reads h scope) :
    c ∈ V.cells := by
  induction hf with
  | scalar v => cases hc
  | object hv => cases hc
  | param ty hcell hm | localVar ty hcell hm | member ty hcell hm =>
    rw [Expr.reads, hcell] at hc
    obtain rfl : c = _ := List.mem_singleton.mp hc
    exact hm
  | binary ty _ _ _ _ ihl ihr =>
    rcases List.mem_append.mp hc with hl | hr
    · exact ihl hl
    · exact ihr hr
  | unary ty _ _ ih => exact ih hc
  | within _ ih => exact ih hc

/-- A formula is one for every valuation that has the cells it reads. With the same values there it
has the same value. -/
theorem change (V' : Valuation) (hf : e.Formula V h scope)
    (hcells : ∀ c ∈ e.reads h scope, c ∈ V'.cells ∧ V'.value c = V.value c) :
    e.Formula V' h scope ∧ e.valueIn V' h scope = e.valueIn V h scope := by
  induction hf with
  | scalar v => exact ⟨.scalar v, rfl⟩
  | object hv => exact ⟨.object hv, rfl⟩
  | param ty hc _ =>
    obtain ⟨hmem, hvalue⟩ := hcells _ (by rw [Expr.reads, hc]; exact List.mem_singleton_self _)
    exact ⟨.param ty hc hmem, by simp only [Expr.valueIn, hc, Option.bind_some, hvalue]⟩
  | localVar ty hc _ =>
    obtain ⟨hmem, hvalue⟩ := hcells _ (by rw [Expr.reads, hc]; exact List.mem_singleton_self _)
    exact ⟨.localVar ty hc hmem, by simp only [Expr.valueIn, hc, Option.bind_some, hvalue]⟩
  | member ty hc _ =>
    obtain ⟨hmem, hvalue⟩ := hcells _ (by rw [Expr.reads, hc]; exact List.mem_singleton_self _)
    exact ⟨.member ty hc hmem, by simp only [Expr.valueIn, hc, Option.bind_some, hvalue]⟩
  | binary ty ha ho _ _ ihl ihr =>
    obtain ⟨hl, hvl⟩ := ihl fun c hc => hcells c (List.mem_append_left _ hc)
    obtain ⟨hr, hvr⟩ := ihr fun c hc => hcells c (List.mem_append_right _ hc)
    exact ⟨.binary ty ha ho hl hr, by simp only [Expr.valueIn, hvl, hvr]⟩
  | unary ty ht _ ih =>
    obtain ⟨ho, hvo⟩ := ih hcells
    exact ⟨.unary ty ht ho, by simp only [Expr.valueIn, hvo]⟩
  | within _ ih =>
    obtain ⟨hb, hvb⟩ := ih hcells
    exact ⟨.within hb, hvb⟩

/-- A terminal formula is the instance of a scalar. -/
theorem of_isTerminal (hf : e.Formula V h scope) (ht : e.isTerminal = true) :
    ∃ id v, e = .object id ∧ h.IsScalar id v := by
  cases hf with
  | object hv => exact ⟨_, _, rfl, hv⟩
  | _ => cases ht

/-- Nothing is left to do in a terminal formula. -/
theorem closed_of_isTerminal (types : Registry) (hf : e.Formula V h scope)
    (ht : e.isTerminal = true) : e.isClosed types = true := by
  obtain ⟨id, v, rfl, -⟩ := hf.of_isTerminal ht
  rfl

/-- A closed formula means the same in every scope. -/
theorem of_isClosed {types : Registry} (hf : e.Formula V h scope) (hc : e.isClosed types = true)
    (scope' : Option ScopeId) :
    e.Formula V h scope' ∧ e.valueIn V h scope' = e.valueIn V h scope ∧
      e.reads h scope' = e.reads h scope := by
  induction hf with
  | scalar v => exact ⟨.scalar v, rfl, rfl⟩
  | object hv => exact ⟨.object hv, rfl, rfl⟩
  | param => cases hc
  | localVar => cases hc
  | @member scope object name c ty hcell hm =>
    cases object with
    | object id => exact ⟨.member ty hcell hm, rfl, rfl⟩
    | this => simp [Expr.isClosed] at hc
    | _ => cases hcell
  | binary ty ha ho _ _ ihl ihr =>
    simp only [Expr.isClosed, Bool.and_eq_true] at hc
    obtain ⟨hl, hvl, hrl⟩ := ihl hc.1.2
    obtain ⟨hr, hvr, hrr⟩ := ihr hc.2
    exact ⟨.binary ty ha ho hl hr, by simp only [Expr.valueIn, hvl, hvr],
      by simp only [Expr.reads, hrl, hrr]⟩
  | @unary scope op operand ty ht _ ih =>
    have hop : operand.isClosed types = true := by
      cases op with
      | typeOf => exact absurd rfl ht
      | _ => simp only [Expr.isClosed, Bool.and_eq_true] at hc; exact hc.2
    obtain ⟨h1, h2, h3⟩ := ih hop
    exact ⟨.unary ty ht h1, by simp only [Expr.valueIn, h2], by simp only [Expr.reads, h3]⟩
  | within hb _ => exact ⟨.within hb, rfl, rfl⟩

end Expr.Formula

end Extensions

end ObjectGraph
