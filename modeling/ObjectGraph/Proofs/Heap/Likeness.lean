import Mathlib.Data.List.Forall2
import ObjectGraph.Proofs.Heap.Scopes

/-!
# Heaps that differ in bindings only

Two heaps match if they differ at most in what scopes bind names to, and there in a way that a
relation of expressions allows (`Heap.Matches`). What can be found along a chain of scopes is then
the same: names, receivers and generic arguments. If the relation allows expressions to differ
only as long as neither is terminal (`Expr.Pending`), then the scopes of both heaps are reduced
alike, and no binding can be told from the other by what comes of reading it.
-/

namespace ObjectGraph

variable {E E' : Expr → Expr → Prop}

/-- Two expressions that are the same, or both not evaluated yet. -/
def Expr.Pending (e e' : Expr) : Prop := e = e' ∨ (e.isTerminal = false ∧ e'.isTerminal = false)

/-- Both are terminal or neither is. -/
theorem Expr.Pending.isTerminal {e e' : Expr} (h : e.Pending e') :
    e'.isTerminal = e.isTerminal := by
  rcases h with rfl | ⟨he, he'⟩
  · rfl
  · rw [he, he']

/-- The bindings have the same name and type, and related expressions. -/
structure Binding.Matches (E : Expr → Expr → Prop) (b b' : Binding) : Prop where
  /-- The names are the same. -/
  name : b'.name = b.name
  /-- The types are the same. -/
  ty : b'.ty = b.ty
  /-- The expressions are related. -/
  expr : E b.expr b'.expr

/-- The scopes are the same but for the expressions that they bind names to, which are related. -/
structure Scope.Matches (E : Expr → Expr → Prop) (sc sc' : Scope) : Prop where
  /-- The parents are the same. -/
  parent : sc'.parent = sc.parent
  /-- The receivers are the same. -/
  receiver : sc'.receiver = sc.receiver
  /-- The generic arguments are the same. -/
  typeArgs : sc'.typeArgs = sc.typeArgs
  /-- The bindings match, one by one. -/
  bindings : List.Forall₂ (Binding.Matches E) sc.bindings sc'.bindings

/-- The heaps are the same but for what scopes bind names to, which is related. -/
structure Heap.Matches (E : Expr → Expr → Prop) (h h' : Heap) : Prop where
  /-- The instances are the same. -/
  instances : h'.instances = h.instances
  /-- The promises are the same. -/
  promises : h'.promises = h.promises
  /-- There are as many scopes. -/
  size : h'.scopes.size = h.scopes.size
  /-- The scopes match, one by one. -/
  scope : ∀ s, (h.scope s).Matches E (h'.scope s)

namespace Scope.Matches

variable {sc sc' : Scope}

/-- Every scope matches itself. -/
theorem refl (hE : ∀ e, E e e) (sc : Scope) : sc.Matches E sc :=
  ⟨rfl, rfl, rfl, List.forall₂_same.mpr fun b _ => ⟨rfl, rfl, hE b.expr⟩⟩

/-- Scopes with the same expressions are the same. -/
theorem eq (h : sc.Matches Eq sc') : sc' = sc := by
  have hbindings : sc.bindings = sc'.bindings := by
    refine List.forall₂_eq_eq_eq ▸ h.bindings.imp fun b b' hb => ?_
    cases b
    cases b'
    exact (Binding.mk.injEq ..).mpr ⟨hb.name.symm, hb.expr, hb.ty.symm⟩
  cases sc
  cases sc'
  exact (Scope.mk.injEq ..).mpr ⟨h.parent, h.receiver, hbindings.symm, h.typeArgs⟩

/-- A relation of expressions may be weakened. -/
theorem mono (h : sc.Matches E sc') (hE : ∀ e e', E e e' → E' e e') : sc.Matches E' sc' :=
  ⟨h.parent, h.receiver, h.typeArgs, h.bindings.imp fun _ _ hb => ⟨hb.name, hb.ty, hE _ _ hb.expr⟩⟩

/-- The names that the scopes bind are the same. -/
theorem names (h : sc.Matches E sc') : sc'.bindings.map (·.name) = sc.bindings.map (·.name) := by
  have hbindings := h.bindings
  generalize sc.bindings = bs, sc'.bindings = bs' at hbindings
  induction hbindings with
  | nil => rfl
  | cons hb _ ih => rw [List.map_cons, List.map_cons, hb.name, ih]

/-- There are as many bindings, and those at the same place match. -/
theorem getElem? (h : sc.Matches E sc') (i : ℕ) :
    (sc.bindings[i]? = none ∧ sc'.bindings[i]? = none) ∨
      ∃ b b', sc.bindings[i]? = some b ∧ sc'.bindings[i]? = some b' ∧ b.Matches E b' := by
  have hbindings := h.bindings
  generalize sc.bindings = bs, sc'.bindings = bs' at hbindings
  induction hbindings generalizing i with
  | nil => exact .inl ⟨rfl, rfl⟩
  | @cons b b' bs bs' hb _ ih =>
    cases i with
    | zero => exact .inr ⟨b, b', rfl, rfl, hb⟩
    | succ i => exact ih i

/-- The same expression may be written into the same binding of both. -/
theorem modify (h : sc.Matches E sc') {e : Expr} (he : E e e) (i : ℕ) :
    { sc with bindings := sc.bindings.modify i (·.withExpr e) }.Matches E
      { sc' with bindings := sc'.bindings.modify i (·.withExpr e) } := by
  refine ⟨h.parent, h.receiver, h.typeArgs, ?_⟩
  have hbindings := h.bindings
  dsimp only
  generalize sc.bindings = bs, sc'.bindings = bs' at hbindings
  induction hbindings generalizing i with
  | nil => rw [List.modify_nil]; exact .nil
  | cons hb hrest ih =>
    cases i with
    | zero => exact .cons ⟨hb.name, hb.ty, he⟩ hrest
    | succ i => exact .cons hb (ih i)

end Scope.Matches

namespace Heap.Matches

variable {h h' : Heap}

/-- Every heap matches itself. -/
theorem refl (hE : ∀ e, E e e) (h : Heap) : h.Matches E h := ⟨rfl, rfl, rfl, fun _ => .refl hE _⟩

/-- A relation of expressions may be weakened. -/
theorem mono (hm : h.Matches E h') (hE : ∀ e e', E e e' → E' e e') : h.Matches E' h' :=
  ⟨hm.instances, hm.promises, hm.size, fun s => (hm.scope s).mono hE⟩

/-! ## Operations -/

/-- Matching scopes may be added. -/
theorem allocScope (hm : h.Matches E h') {sc sc' : Scope} (hsc : sc.Matches E sc') :
    (h.allocScope sc).2.Matches E (h'.allocScope sc').2 where
  instances := hm.instances
  promises := hm.promises
  size := by simp only [Heap.allocScope, Array.size_push, hm.size]
  scope s := by
    rw [scope_allocScope, scope_allocScope, hm.size]
    split
    · exact hsc
    · exact hm.scope s

/-- The same instance may be added. -/
theorem allocInstance (hm : h.Matches E h') (i : Instance) :
    (h.allocInstance i).2.Matches E (h'.allocInstance i).2 where
  instances := by simp only [Heap.allocInstance, hm.instances]
  promises := hm.promises
  size := hm.size
  scope := hm.scope

/-- A promise may be put into the same state. -/
theorem setPromise (hm : h.Matches E h') (id : PromiseId) (p : Promise) :
    (h.setPromise id p).Matches E (h'.setPromise id p) where
  instances := hm.instances
  promises := by simp only [Heap.setPromise, hm.promises]
  size := hm.size
  scope := hm.scope

/-- The same expression may be written into the same binding. -/
theorem write (hm : h.Matches E h') {e : Expr} (he : E e e) (s : ScopeId) (i : ℕ) :
    (h.write (.binding s i) e).Matches E (h'.write (.binding s i) e) where
  instances := hm.instances
  promises := hm.promises
  size := by simp only [size_scopes_write, hm.size]
  scope s' := by
    simp only [Heap.write, scope_modifyScope, hm.size]
    split
    · exact (hm.scope s').modify he i
    · exact hm.scope s'

/-! ## Look-ups -/

/-- Chains are the same. -/
theorem chain (hm : h.Matches E h') (s : ScopeId) : h'.chain s = h.chain s := by
  rw [Heap.chain, Heap.chain, hm.size, outerWithin_congr fun s => (hm.scope s).parent]

/-- Names lead to the same bindings. -/
theorem lookup? (hm : h.Matches E h') (s : ScopeId) (name : String) :
    h'.lookup? s name = h.lookup? s name := by
  rw [Heap.lookup?, Heap.lookup?, hm.chain]
  congr 1
  funext s'
  rw [findIdx?_name_congr (hm.scope s').names]

/-- Receivers are the same. -/
theorem receiver? (hm : h.Matches E h') (s : ScopeId) : h'.receiver? s = h.receiver? s := by
  rw [Heap.receiver?, Heap.receiver?, hm.chain]
  simp only [(hm.scope _).receiver]

/-- Generic arguments are the same. -/
theorem typeArg? (hm : h.Matches E h') (s : ScopeId) (param : TypeId) :
    h'.typeArg? s param = h.typeArg? s param := by
  rw [Heap.typeArg?, Heap.typeArg?, hm.chain]
  simp only [(hm.scope _).typeArgs]

/-- The same scopes are reduced, if expressions that differ are pending. -/
theorem isReduced (hm : h.Matches Expr.Pending h') (s : ScopeId) :
    h'.isReduced s = h.isReduced s := by
  -- Where bindings differ, neither of them is reduced.
  have hall (s' : ScopeId) : (h'.scope s').bindings.all (·.expr.isTerminal) =
      (h.scope s').bindings.all (·.expr.isTerminal) := by
    have hbindings := (hm.scope s').bindings
    generalize (h.scope s').bindings = bs, (h'.scope s').bindings = bs' at hbindings
    induction hbindings with
    | nil => rfl
    | cons hb _ ih => rw [List.all_cons, List.all_cons, hb.expr.isTerminal, ih]
  rw [Heap.isReduced, Heap.isReduced, hm.chain]
  simp only [hall]

/-- What the same binding holds is related, if there is such a binding. -/
theorem read? (hm : h.Matches E h') (s : ScopeId) (i : ℕ) :
    (h.read? (.binding s i) = none ∧ h'.read? (.binding s i) = none) ∨
      ∃ e e', h.read? (.binding s i) = some e ∧ h'.read? (.binding s i) = some e' ∧ E e e' := by
  simp only [Heap.read?]
  rcases (hm.scope s).getElem? i with ⟨hb, hb'⟩ | ⟨b, b', hb, hb', hmatch⟩
  · rw [hb, hb']
    exact .inl ⟨rfl, rfl⟩
  · rw [hb, hb']
    exact .inr ⟨b.expr, b'.expr, rfl, rfl, hmatch.expr⟩

end Heap.Matches

end ObjectGraph
