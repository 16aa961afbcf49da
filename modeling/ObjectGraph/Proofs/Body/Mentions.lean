import ObjectGraph.Proofs.Body.Position
import ObjectGraph.Proofs.Discovery

/-!
# What a lane mentions

Discovery follows handles, and evaluation follows names. A binding that an expression reads is named
from the scope that the expression is in, or from one that it mentions (`Heap.Mentions`). Because
discovery goes from a scope to its parents, it finds whatever evaluation waits for
(`reaches_of_mentions`). What a lane has come to mentions no instances but scalars (`Runs.confined`).
-/

namespace ObjectGraph

namespace Heap

variable {h : Heap} {scope : Option ScopeId} {n : Node} {c : Cell}

/-- The cell is named from the scope of an expression, or from a scope that the expression
mentions. -/
def Mentions (h : Heap) (scope : Option ScopeId) (e : Expr) (c : Cell) : Prop :=
  ∃ t x, (scope = some t ∨ .scope t ∈ h.handles e) ∧ h.nameCell? (some t) x = some c

/-- What is mentioned in an expression is mentioned where there are more handles. -/
theorem Mentions.mono {e e' : Expr} (hm : h.Mentions scope e c)
    (hsub : h.handles e ⊆ h.handles e') : h.Mentions scope e' c := by
  obtain ⟨t, x, ht, hcell⟩ := hm
  exact ⟨t, x, ht.imp_right fun ht => hsub ht, hcell⟩

/-- What is mentioned in a scope is mentioned by the expression that is in the scope. -/
theorem Mentions.within {inner : ScopeId} {body : Expr} (hm : h.Mentions (some inner) body c) :
    h.Mentions scope (.scoped inner body) c := by
  obtain ⟨t, x, ht, hcell⟩ := hm
  refine ⟨t, x, .inr ?_, hcell⟩
  rw [handles_scoped]
  rcases ht with ht | ht
  · obtain rfl : inner = t := Option.some.inj ht
    exact List.mem_cons_self
  · exact List.mem_cons_of_mem _ ht

/-- A binding that an expression reads is named from a scope that it mentions. -/
theorem mentions_of_mem_reads {e : Expr} (hc : c ∈ e.reads h scope)
    (hbinding : ∀ o i, c ≠ .slot o i) : h.Mentions scope e c := by
  induction scope, e using Expr.reads.induct with
  | case1 scope name ty | case2 scope name ty =>
    have hcell := Option.mem_toList.mp hc
    obtain ⟨found, hfound, -⟩ := Option.map_eq_some_iff.mp hcell
    obtain ⟨t, rfl, -⟩ := Option.bind_eq_some_iff.mp hfound
    exact ⟨t, name, .inl rfl, hcell⟩
  | case3 scope object name ty =>
    have hcell := Option.mem_toList.mp hc
    obtain ⟨id, -, hslot⟩ := Option.bind_eq_some_iff.mp hcell
    obtain ⟨i, -, heq⟩ := Option.map_eq_some_iff.mp hslot
    exact absurd heq.symm (hbinding id i)
  | case4 scope op lhs rhs ty ihl ihr =>
    have happ := h.handles_binary op lhs rhs ty
    rcases List.mem_append.mp hc with hc | hc
    · exact (ihl hc).mono (happ ▸ List.subset_append_left _ _)
    · exact (ihr hc).mono (happ ▸ List.subset_append_right _ _)
  | case5 scope op operand ty ih => exact ih hc
  | case6 scope inner body ih => exact (ih hc).within
  | case7 scope e hparam hvariable hmember hbinary hunary hscoped =>
    rw [Expr.reads] at hc
    all_goals first | assumption | cases hc

/-- Discovery goes from a scope to the scopes around it. -/
theorem reaches_of_mem_outerWithin {fuel : ℕ} {s t : ScopeId} (ht : t ∈ h.outerWithin fuel s) :
    h.Reaches (.scope s) (.scope t) := by
  induction fuel generalizing s with
  | zero => cases ht
  | succ fuel ih =>
    rw [outerWithin] at ht
    cases hparent : (h.scope s).parent with
    | none => rw [hparent] at ht; cases ht
    | some parent =>
      rw [hparent] at ht
      have hstep : h.Reaches (.scope s) (.scope parent) := by
        refine Relation.ReflTransGen.single ?_
        simp [leads, scopeEdges, hparent]
      rcases List.mem_cons.mp ht with rfl | ht
      · exact hstep
      · exact hstep.trans (ih ht)

/-- Discovery finds what a name leads to. -/
theorem reaches_of_nameCell? {s : ScopeId} {x : String} (hc : h.nameCell? (some s) x = some c) :
    h.Reaches (.scope s) c.node := by
  obtain ⟨found, hfound, rfl⟩ := Option.map_eq_some_iff.mp hc
  obtain ⟨t, ht, hbound⟩ := List.exists_of_findSome?_eq_some hfound
  obtain ⟨i, -, rfl⟩ := Option.map_eq_some_iff.mp hbound
  rcases List.mem_cons.mp ht with rfl | ht
  · exact .refl
  · exact reaches_of_mem_outerWithin ht

/-- A cell leads to what it mentions, unless it is a property of a final instance. -/
theorem leads_of_read? {e : Expr} (hread : h.read? c = some e) (hopen : h.isOpen c.node = true)
    (hn : n ∈ h.handles e) : n ∈ h.leads c.node := by
  cases c with
  | binding s i =>
    obtain ⟨b, hb, rfl⟩ := Option.map_eq_some_iff.mp hread
    exact List.mem_append_right _ (List.mem_flatMap.mpr ⟨b, List.mem_of_getElem? hb, hn⟩)
  | slot o i =>
    obtain ⟨slot, hslot, rfl⟩ := Option.map_eq_some_iff.mp hread
    rw [Cell.node, leads, if_neg (by simpa [isOpen, Cell.node] using hopen)]
    refine List.mem_append_right _ (List.mem_flatMap.mpr ⟨slot.expr, ?_, hn⟩)
    exact List.mem_append_left _ (List.mem_map.mpr ⟨slot, List.mem_of_getElem? hslot, rfl⟩)
  | element o i =>
    rw [Cell.node, leads, if_neg (by simpa [isOpen, Cell.node] using hopen)]
    refine List.mem_append_right _ (List.mem_flatMap.mpr ⟨e, ?_, hn⟩)
    exact List.mem_append_right _ (List.mem_of_getElem? hread)

/-- Discovery finds what a cell mentions. -/
theorem reaches_of_mentions {e : Expr} {c' : Cell} (hread : h.read? c = some e)
    (hopen : h.isOpen c.node = true) (hm : h.Mentions none e c') :
    h.Reaches c.node c'.node := by
  obtain ⟨t, x, ht, hcell⟩ := hm
  have hmentioned := ht.resolve_left nofun
  exact .head (leads_of_read? hread hopen hmentioned) (reaches_of_nameCell? hcell)

end Heap

mutual

/-- The traversal of a statement goes through its expressions. -/
theorem Stmt.preorder_eq : ∀ stmt : Stmt, stmt.preorder = stmt.exprs.flatMap Expr.preorder
  | .branch cond whenTrue whenFalse => by
    simp only [Stmt.preorder, Stmt.exprs, List.flatMap_cons, List.flatMap_append,
      preorderStmts_eq whenTrue, preorderStmts_eq whenFalse, List.append_assoc]
  | .result value | .declare _ _ value | .assign _ value => by
    simp only [Stmt.preorder, Stmt.exprs, List.flatMap_cons, List.flatMap_nil, List.append_nil]

/-- The traversal of statements goes through their expressions. -/
theorem preorderStmts_eq :
    ∀ stmts : List Stmt, preorderStmts stmts = (stmtsExprs stmts).flatMap Expr.preorder
  | [] => rfl
  | stmt :: stmts => by
    simp only [preorderStmts, stmtsExprs, List.flatMap_append, Stmt.preorder_eq stmt,
      preorderStmts_eq stmts]

end

/-- What a block mentions is mentioned by its expressions. -/
theorem Heap.mem_handles_block {h : Heap} {stmts : List Stmt} {ty : TypeId} {n : Node} :
    n ∈ h.handles (.block stmts ty) ↔ ∃ e ∈ stmtsExprs stmts, n ∈ h.handles e := by
  have happ : h.handles (.block stmts ty) = (stmtsExprs stmts).flatMap h.handles := by
    rw [handles, Expr.preorder, preorderStmts_eq, List.flatMap_cons, List.flatMap_assoc]
    rfl
  rw [happ, List.mem_flatMap]

/-- What an expression of a block mentions is mentioned by the block. -/
theorem Heap.Mentions.block {h : Heap} {scope : Option ScopeId} {stmts : List Stmt} {e : Expr}
    {c : Cell} (hm : h.Mentions scope e c) (he : e ∈ stmtsExprs stmts) (ty : TypeId) :
    h.Mentions scope (.block stmts ty) c :=
  hm.mono fun _ hn => mem_handles_block.mpr ⟨e, he, hn⟩

/-- Plain expressions mention nothing. -/
theorem Expr.IsPlain.handles {e : Expr} (he : e.IsPlain) (h : Heap) : h.handles e = [] := by
  induction he with
  | scalar | param | localVar => rfl
  | binary ty _ _ _ _ ihl ihr => rw [Heap.handles_binary, ihl, ihr]; rfl
  | unary ty _ _ ih => exact ih

namespace Lanes

variable {σ : Type} {natives : Natives σ} {root : InstanceId} {L : Lanes} {w : World σ}
  {lane : Option ℕ} {scope : Option ScopeId} {e : Expr} {v : Scalar} {r : Option Scalar}

/-- What computes a value mentions no instances but scalars. -/
theorem Computes.confined (hc : L.Computes w.heap lane scope e v) (hL : L.Held natives root w) :
    w.heap.Confined root e :=
  hc.formula.confined fun hslot => absurd rfl (hL.ne_slot hslot _ _)

/-- A block is confined if its expressions are. -/
theorem confined_block {h : Heap} {stmts : List Stmt} (ty : TypeId)
    (hexprs : ∀ e ∈ stmtsExprs stmts, h.Confined root e) :
    h.Confined root (.block stmts ty) := by
  intro n hn
  obtain ⟨e, he, hn⟩ := Heap.mem_handles_block.mp hn
  exact hexprs e he n hn

/-- What a lane has come to mentions no instances but scalars. -/
theorem Runs.confined (hr : L.Runs w.heap lane r scope e) (hL : L.Held natives root w) :
    w.heap.Confined root e := by
  -- A body as it is written mentions no node at all.
  have hplain {stmts : List Stmt} (hp : ArePlain stmts) {e : Expr} (he : e ∈ stmtsExprs stmts) :
      w.heap.Confined root e := by
    intro n hn
    rw [(hp e he).handles] at hn
    cases hn
  induction hr with
  | value hc _ => exact hc.confined hL
  | missing ty _ => exact fun n hn => absurd hn List.not_mem_nil
  | block ty _ hd =>
    refine confined_block ty fun e he => ?_
    cases hd with
    | written hp _ _ => exact hplain hp he
    | assign hc _ _ hp _ _ =>
      rcases List.mem_cons.mp he with rfl | he
      · exact hc.confined hL
      · exact hplain hp he
    | branch hc ht hf hp _ _ =>
      rcases List.mem_cons.mp he with rfl | he
      · exact hc.confined hL
      · rcases List.mem_append.mp he with he | he
        · rcases List.mem_append.mp he with he | he
          · exact hplain ht he
          · exact hplain hf he
        · exact hplain hp he
  | within _ ih =>
    intro n hn
    rw [Heap.handles_scoped] at hn
    rcases List.mem_cons.mp hn with rfl | hn
    · trivial
    · exact ih n hn

end Lanes

end ObjectGraph
