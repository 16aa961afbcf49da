import ObjectGraph.Proofs.Body.Interpreter
import ObjectGraph.Proofs.Formula.Object

/-!
# Lanes

Several properties of an object may be computed by calls of its methods. Each of them runs a body in
scopes of its own, a lane. `Lanes` says which bindings of which lanes there are and what values they
come to. Unlike the valuation of formulas this one changes as bodies run: a declaration and the
parameters of a call add bindings to a lane (`Lanes.enter`), and an assignment gives a binding
another value (`Lanes.set`). No initializer that is still to be evaluated may read the binding then.

`Lanes.Held` says that the bindings hold what they should. Each change keeps it, and each has
nothing to do with other lanes (`Lanes.Moves`).
-/

namespace ObjectGraph

variable {σ : Type} {natives : Natives σ} {root : InstanceId}

/-- The bindings that bodies have made, with the values they come to. -/
structure Lanes where
  /-- The bindings. -/
  cells : List Cell
  /-- The value that each comes to. -/
  value : Cell → Option Scalar
  /-- The lane that each is in, if any. -/
  owner : Cell → Option ℕ

/-- Scopes are numbered in the order in which they are opened. -/
def Cell.depth : Cell → ℕ
  | .binding s _ => s.index
  | .slot _ _ | .element _ _ => 0

/-- The present values. A binding reads bindings of older scopes. -/
def Lanes.valuation (L : Lanes) : Valuation := ⟨L.cells, L.value, Cell.depth⟩

/-- An expression of a lane comes to a value. -/
structure Lanes.Computes (L : Lanes) (h : Heap) (lane : Option ℕ) (scope : Option ScopeId)
    (e : Expr) (v : Scalar) : Prop where
  /-- It is a formula. -/
  formula : e.Formula L.valuation h scope
  /-- It reads bindings of the lane. -/
  owned : ∀ c ∈ e.reads h scope, L.owner c = lane
  /-- This is its value. -/
  value : e.valueIn L.valuation h scope = some v

/-- The bindings hold what they should, while the properties of the object `root` are evaluated. -/
structure Lanes.Held (L : Lanes) (natives : Natives σ) (root : InstanceId) (w : World σ) :
    Prop where
  /-- They hold fitting formulas. -/
  holds : L.valuation.Holds natives w
  /-- They have values. -/
  total : ∀ c ∈ L.cells, (L.value c).isSome = true
  /-- They are bindings. -/
  isBinding : ∀ c ∈ L.cells, ∃ s j, c = .binding s j
  /-- They read bindings of their own lane. -/
  owned : ∀ {c e}, c ∈ L.cells → w.heap.read? c = some e →
    ∀ c' ∈ e.reads w.heap none, L.owner c' = L.owner c
  /-- The object is alone. -/
  alone : w.heap.Alone root
  /-- It is on the heap. -/
  placed : root.index < w.heap.instances.size
  /-- Whatever else there is, the object's properties apart, is terminal. -/
  quiet : ∀ {c e}, w.heap.read? c = some e → c ∉ L.cells → (∀ i, c ≠ .slot root i) →
    e.isTerminal = true

/-- The lanes with a new scope, in which the bindings come to given values. -/
def Lanes.enter (L : Lanes) (lane : Option ℕ) (id : ScopeId) (values : List Scalar) : Lanes where
  cells := (List.range values.length).map (.binding id) ++ L.cells
  value
    | .binding s j => if s = id then values[j]? else L.value (.binding s j)
    | c => L.value c
  owner
    | .binding s j => if s = id then lane else L.owner (.binding s j)
    | c => L.owner c

/-- The lanes with another value for a binding. -/
def Lanes.set (L : Lanes) (c : Cell) (v : Scalar) : Lanes :=
  { L with value := fun c' => if c' = c then some v else L.value c' }

namespace Lanes

variable {L L' : Lanes} {h h' : Heap} {lane : Option ℕ} {scope : Option ScopeId} {e : Expr}
  {v : Scalar}

/-- A value stays the same in every extension. -/
theorem Computes.extend (hc : L.Computes h lane scope e v) (hx : h.Extends h') :
    L.Computes h' lane scope e v where
  formula := hc.formula.extend hx
  owned := by
    rw [hc.formula.reads_extend hx]
    exact hc.owned
  value := (hc.formula.valueIn_extend hx).trans hc.value

/-- A value stays the same if the lanes stay the same where the expression reads them. -/
theorem Computes.change (hc : L.Computes h lane scope e v)
    (hsame : ∀ c ∈ e.reads h scope, c ∈ L'.cells ∧ L'.value c = L.value c ∧
      L'.owner c = L.owner c) : L'.Computes h lane scope e v := by
  obtain ⟨hformula, hvalue⟩ := hc.formula.change L'.valuation
    fun c hcell => ⟨(hsame c hcell).1, (hsame c hcell).2.1⟩
  exact ⟨hformula, fun c hcell => (hsame c hcell).2.2.trans (hc.owned c hcell),
    hvalue.trans hc.value⟩

/-- The bindings that a computation reads are in the lanes. -/
theorem Computes.mem_cells (hc : L.Computes h lane scope e v) {c : Cell}
    (hcell : c ∈ e.reads h scope) : c ∈ L.cells :=
  hc.formula.mem_cells hcell

section Enter

variable {id : ScopeId} {values : List Scalar} {c : Cell}

/-- The bindings after a scope has been entered. -/
theorem mem_cells_enter : c ∈ (L.enter lane id values).cells ↔
    (∃ j, j < values.length ∧ .binding id j = c) ∨ c ∈ L.cells := by
  simp only [enter, List.mem_append, List.mem_map, List.mem_range]

/-- Bindings of other scopes come to what they came to. -/
theorem enter_of_ne (hc : ∀ j, c ≠ .binding id j) :
    (L.enter lane id values).value c = L.value c ∧
      (L.enter lane id values).owner c = L.owner c := by
  cases c with
  | binding s j =>
    have hs : s ≠ id := fun heq => hc j (by rw [heq])
    exact ⟨if_neg hs, if_neg hs⟩
  | slot o i => exact ⟨rfl, rfl⟩
  | element o i => exact ⟨rfl, rfl⟩

/-- The new bindings come to the given values and are in the lane. -/
theorem enter_self (L : Lanes) (lane : Option ℕ) (id : ScopeId) (values : List Scalar) (j : ℕ) :
    (L.enter lane id values).value (.binding id j) = values[j]? ∧
      (L.enter lane id values).owner (.binding id j) = lane :=
  ⟨if_pos rfl, if_pos rfl⟩

end Enter

namespace Held

variable {w : World σ} (hL : L.Held natives root w)

include hL

/-- The bindings are not elements of arrays. -/
theorem direct {c : Cell} (hc : c ∈ L.cells) (o : InstanceId) (i : ℕ) : c ≠ .element o i :=
  hL.holds.direct c hc o i

/-- A binding is on the heap, and so its scope is. -/
theorem depth_lt {c : Cell} (hc : c ∈ L.cells) : c.depth < w.heap.scopes.size := by
  obtain ⟨s, j, rfl⟩ := hL.isBinding c hc
  obtain ⟨e, he, -⟩ := hL.holds.cell _ hc
  refine Nat.lt_of_not_le fun hle => ?_
  rw [Heap.read?, Heap.scope_of_le _ hle] at he
  cases he

/-- A binding is not one of a scope that is yet to be opened. -/
theorem ne_new {c : Cell} (hc : c ∈ L.cells) (j : ℕ) : c ≠ .binding ⟨w.heap.scopes.size⟩ j := by
  obtain ⟨e, he, -⟩ := hL.holds.cell c hc
  exact w.heap.ne_of_read? he j

/-- A binding is not a property. -/
theorem ne_slot {c : Cell} (hc : c ∈ L.cells) (o : InstanceId) (i : ℕ) : c ≠ .slot o i := by
  obtain ⟨s, j, rfl⟩ := hL.isBinding c hc
  intro heq
  cases heq

/-- In an extension that leaves a binding as it is, the binding reads what it read. -/
theorem reads_extend {h' : Heap} (hx : w.heap.Extends h') {c : Cell} (hc : c ∈ L.cells)
    (hread : h'.read? c = w.heap.read? c) {e : Expr} (he : h'.read? c = some e) :
    w.heap.read? c = some e ∧ e.reads h' none = e.reads w.heap none := by
  have hold : w.heap.read? c = some e := hread.symm.trans he
  exact ⟨hold, (hL.holds.fits hc hold).formula.reads_extend hx⟩

/-- In an extension that leaves the bindings as they are, they read nothing new. -/
theorem reads_subset {h' : Heap} (hx : w.heap.Extends h')
    (hread : ∀ c ∈ L.cells, h'.read? c = w.heap.read? c) :
    ∀ c ∈ L.cells, ∀ e', h'.read? c = some e' →
      ∃ e, w.heap.read? c = some e ∧ e'.reads h' none ⊆ e.reads w.heap none := by
  intro c hc e' he'
  obtain ⟨hold, hsame⟩ := hL.reads_extend hx hc (hread c hc) he'
  refine ⟨e', hold, ?_⟩
  rw [hsame]
  exact List.Subset.refl _

/-- The bindings hold what they should in every extension that leaves them as they are, and in which
nothing else but the object's properties is new. -/
theorem extend {w' : World σ} (hx : w.heap.Extends w'.heap)
    (hread : ∀ c ∈ L.cells, w'.heap.read? c = w.heap.read? c) (halone : w'.heap.Alone root)
    (hquiet : ∀ c, (∀ i, c ≠ .slot root i) → w'.heap.read? c = w.heap.read? c) :
    L.Held natives root w' where
  holds := hL.holds.extend hx hread fun {id i} hc => absurd rfl (hL.ne_slot hc id i)
  total := hL.total
  isBinding := hL.isBinding
  owned {c e} hc he := by
    obtain ⟨hold, hsame⟩ := hL.reads_extend hx hc (hread c hc) he
    rw [hsame]
    exact hL.owned hc hold
  alone := halone
  placed := Nat.lt_of_lt_of_le hL.placed hx.size
  quiet {c e} he hc hslot := hL.quiet ((hquiet c hslot).symm.trans he) hc hslot

/-- New scalars change nothing. -/
theorem grow {h : Heap} (g : w.heap.Grows h) : L.Held natives root { w with heap := h } :=
  hL.extend g.extension (fun c _ => g.read? c) (hL.alone.grow hL.placed g) fun c _ => g.read? c

/-- New types change nothing. -/
theorem types (types : Registry) : L.Held natives root { w with types } :=
  hL.extend .refl (fun _ _ => rfl) hL.alone fun _ _ => rfl

/-- A new scope adds its bindings to a lane. -/
theorem enter {lane : Option ℕ} {sc : Scope} {values : List Scalar}
    (hreceiver : ∀ id, sc.receiver = some id → id = root)
    (hbindings : List.Forall₂ (fun (b : Binding) v =>
      L.Computes w.heap lane none b.expr v ∧ w.heap.Confined root b.expr) sc.bindings values) :
    (L.enter lane ⟨w.heap.scopes.size⟩ values).Held natives root
      { w with heap := (w.heap.allocScope sc).2 } := by
  have hx := w.heap.extends_allocScope sc
  have hlength := hbindings.length_eq
  -- What is in the lanes stays there, with the same values.
  have hsame {c : Cell} (hc : c ∈ L.cells) :
      c ∈ (L.enter lane ⟨w.heap.scopes.size⟩ values).cells ∧
        (L.enter lane ⟨w.heap.scopes.size⟩ values).value c = L.value c ∧
        (L.enter lane ⟨w.heap.scopes.size⟩ values).owner c = L.owner c :=
    ⟨mem_cells_enter.mpr (.inr hc), enter_of_ne (hL.ne_new hc)⟩
  have hcases {c : Cell} (hc : c ∈ (L.enter lane ⟨w.heap.scopes.size⟩ values).cells) :
      (∃ j, j < values.length ∧ .binding ⟨w.heap.scopes.size⟩ j = c) ∨ c ∈ L.cells :=
    mem_cells_enter.mp hc
  have hnew {j : ℕ} (hj : j < values.length) : ∃ b v, sc.bindings[j]? = some b ∧
      values[j]? = some v ∧ L.Computes w.heap lane none b.expr v ∧
        w.heap.Confined root b.expr := by
    have hb := hbindings.get (hlength ▸ hj) hj
    exact ⟨sc.bindings.get ⟨j, hlength ▸ hj⟩, values.get ⟨j, hj⟩, List.getElem?_eq_getElem _,
      List.getElem?_eq_getElem _, hb⟩
  have hold {c : Cell} {e : Expr} (hc : c ∈ L.cells) :
      (w.heap.allocScope sc).2.read? c = some e ↔ w.heap.read? c = some e := by
    rw [Heap.read?_allocScope_of_ne _ _ (hL.ne_new hc)]
  have hread {j : ℕ} {b : Binding} (hb : sc.bindings[j]? = some b) :
      (w.heap.allocScope sc).2.read? (.binding ⟨w.heap.scopes.size⟩ j) = some b.expr := by
    rw [Heap.read?_allocScope_self, hb]
    rfl
  -- Each field is shown for the new bindings first, and then for those that were there before.
  refine ⟨⟨fun c hc => ?_, fun c hc o i => ?_, fun {id i} hc => ?_⟩, fun c hc => ?_, fun c hc => ?_,
    fun {c e} hc he c' hc' => ?_, hL.alone.allocScope hreceiver fun b hb => ?_, hL.placed,
    fun {c e} he hc hslot => ?_⟩
  · rcases hcases hc with ⟨j, hj, rfl⟩ | hc
    · obtain ⟨b, v, hb, hv, hcomputes, -⟩ := hnew hj
      have hcomputes' := (hcomputes.change fun c hc => hsame (hcomputes.mem_cells hc)).extend hx
      refine ⟨b.expr, hread hb, hcomputes'.formula, ?_, fun _ c' hc' => ?_⟩
      · rw [hcomputes'.value, ← hv]
        exact (L.enter_self lane _ values j).1.symm
      · rw [hcomputes.formula.reads_extend hx] at hc'
        exact hL.depth_lt (hcomputes.mem_cells hc')
    · obtain ⟨e, he, hfit⟩ := hL.holds.cell c hc
      have hfit' : (L.enter lane ⟨w.heap.scopes.size⟩ values).valuation.Fits w.heap c e := by
        refine hfit.change _ rfl (hsame hc).2.1 fun c' hc' => ?_
        exact ⟨(hsame (hfit.formula.mem_cells hc')).1, (hsame (hfit.formula.mem_cells hc')).2.1⟩
      exact ⟨e, (hold hc).mpr he, hfit'.extend hx⟩
  · rcases hcases hc with ⟨j, -, rfl⟩ | hc
    · exact nofun
    · exact hL.direct hc o i
  · rcases hcases hc with ⟨j, -, heq⟩ | hc
    · cases heq
    · exact hL.holds.plain hc
  · rcases hcases hc with ⟨j, hj, rfl⟩ | hc
    · rw [(L.enter_self lane _ values j).1, List.getElem?_eq_getElem hj]
      rfl
    · rw [(hsame hc).2.1]
      exact hL.total c hc
  · rcases hcases hc with ⟨j, -, rfl⟩ | hc
    · exact ⟨_, j, rfl⟩
    · exact hL.isBinding c hc
  · rcases hcases hc with ⟨j, hj, rfl⟩ | hc
    · obtain ⟨b, v, hb, -, hcomputes, -⟩ := hnew hj
      obtain rfl : b.expr = e := Option.some.inj ((hread hb).symm.trans he)
      rw [hcomputes.formula.reads_extend hx] at hc'
      rw [(hsame (hcomputes.mem_cells hc')).2.2, hcomputes.owned c' hc']
      exact (L.enter_self lane _ values j).2.symm
    · have he' := (hold hc).mp he
      have hfit := hL.holds.fits hc he'
      rw [hfit.formula.reads_extend hx] at hc'
      rw [(hsame (hfit.formula.mem_cells hc')).2.2, (hsame hc).2.2]
      exact hL.owned hc he' c' hc'
  · obtain ⟨j, hj⟩ := List.mem_iff_getElem?.mp hb
    have hlt := (List.getElem?_eq_some_iff.mp hj).1
    obtain ⟨b', v, hb', -, -, hconfined⟩ := hnew (hlength ▸ hlt)
    obtain rfl : b' = b := Option.some.inj (hb'.symm.trans hj)
    exact hconfined
  · by_cases hnewCell : ∃ j, c = .binding ⟨w.heap.scopes.size⟩ j
    · obtain ⟨j, rfl⟩ := hnewCell
      have hread' : (w.heap.allocScope sc).2.read? (.binding ⟨w.heap.scopes.size⟩ j) = some e := he
      rw [Heap.read?_allocScope_self] at hread'
      obtain ⟨b, hb, -⟩ := Option.map_eq_some_iff.mp hread'
      have hlt := (List.getElem?_eq_some_iff.mp hb).1
      exact absurd (mem_cells_enter.mpr (.inl ⟨j, hlength ▸ hlt, rfl⟩)) hc
    · have hread' : (w.heap.allocScope sc).2.read? c = some e := he
      rw [Heap.read?_allocScope_of_ne _ _ fun j heq => hnewCell ⟨j, heq⟩] at hread'
      exact hL.quiet hread' (fun hcell => hc (mem_cells_enter.mpr (.inr hcell))) hslot

/-- An assignment gives a binding the value of an instance, if no binding reads it. -/
theorem set {c : Cell} {id : InstanceId} {v : Scalar} (hc : c ∈ L.cells)
    (hv : w.heap.IsScalar id v)
    (hunread : ∀ c' e', c' ∈ L.cells → w.heap.read? c' = some e' → c ∉ e'.reads w.heap none) :
    (L.set c v).Held natives root { w with heap := w.heap.write c (.object id) } := by
  have hx := w.heap.extends_write c (.object id) (hL.direct hc)
  have hself : (w.heap.write c (.object id)).read? c = some (.object id) := by
    obtain ⟨e, he, -⟩ := hL.holds.cell c hc
    rw [Heap.read?_write_self, he]
    rfl
  -- Since no binding reads `c`, what the bindings read has kept its value.
  have hne {c' : Cell} {e' : Expr} (hc' : c' ∈ L.cells) (he' : w.heap.read? c' = some e') :
      ∀ c'' ∈ e'.reads w.heap none, c'' ∈ L.cells ∧ (L.set c v).value c'' = L.value c'' := by
    intro c'' hc''
    refine ⟨(hL.holds.fits hc' he').formula.mem_cells hc'', if_neg ?_⟩
    rintro rfl
    exact hunread c' e' hc' he' hc''
  refine ⟨⟨fun c' hc' => ?_, hL.holds.direct, fun {id i} hslot => ?_⟩, fun c' hc' => ?_,
    hL.isBinding, fun {c' e'} hc' he' c'' hc'' => ?_, hL.alone.write (hL.direct hc) ?_, ?_,
    fun {c' e'} he' hc' hslot => ?_⟩
  -- The binding itself holds an instance, which reads nothing.
  · by_cases heq : c = c'
    · subst heq
      refine ⟨_, hself, .object (hv.extend hx), ?_, fun _ c'' hc'' => absurd hc'' List.not_mem_nil⟩
      exact (hv.extend hx).scalar?.trans (if_pos rfl).symm
    · obtain ⟨e', he', hfit⟩ := hL.holds.cell c' hc'
      have hfit' : (L.set c v).valuation.Fits w.heap c' e' :=
        hfit.change (L.set c v).valuation rfl (if_neg (Ne.symm heq)) (hne hc' he')
      exact ⟨e', (Heap.read?_write_of_ne _ _ heq).trans he', hfit'.extend hx⟩
  · exact absurd rfl (hL.ne_slot hslot id i)
  · by_cases heq : c' = c
    · exact congrArg Option.isSome (if_pos heq)
    · exact (congrArg Option.isSome (if_neg heq)).trans (hL.total c' hc')
  · by_cases heq : c = c'
    · subst heq
      obtain rfl : .object id = e' := Option.some.inj (hself.symm.trans he')
      exact absurd hc'' List.not_mem_nil
    · obtain ⟨hread, hsame⟩ := hL.reads_extend hx hc' (Heap.read?_write_of_ne _ _ heq) he'
      rw [hsame] at hc''
      exact hL.owned hc' hread c'' hc''
  · intro n hn
    rw [List.mem_singleton.mp hn]
    exact .inr ⟨v, hv⟩
  · rw [Heap.size_instances_write]
    exact hL.placed
  · have hcc' : c ≠ c' := fun heq => hc' (heq ▸ hc)
    exact hL.quiet ((Heap.read?_write_of_ne _ _ hcc').symm.trans he') hc' hslot

/-- A pass over a binding changes no values. -/
theorem swept {c : Cell} {n : ℕ} {w' : World σ} (hc : c ∈ L.cells)
    (hs : Swept L.valuation natives w c n w') : L.Held natives root w' := by
  have hx := hs.extension (hL.direct hc)
  refine ⟨hs.holds, hL.total, hL.isBinding, fun {c' e'} hc' he' c'' hc'' => ?_, ?_,
    Nat.lt_of_lt_of_le hL.placed hx.size, fun {c' e'} he' hc' hslot => ?_⟩
  · by_cases heq : c = c'
    · subst heq
      obtain ⟨e, he, -⟩ := hL.holds.cell c hc
      exact hL.owned hc he c'' (hs.reads e e' he he' hc'')
    · obtain ⟨hread, hsame⟩ := hL.reads_extend hx hc' (hs.read?_of_ne heq) he'
      rw [hsame] at hc''
      exact hL.owned hc' hread c'' hc''
  · obtain ⟨h, e, hg, rfl, hformula⟩ := hs.written
    refine (hL.alone.grow hL.placed hg).write (hL.direct hc) (hformula.confined fun hcell => ?_)
    exact absurd rfl (hL.ne_slot hcell _ _)
  · have hcc' : c ≠ c' := fun heq => hc' (heq ▸ hc)
    exact hL.quiet ((hs.read?_of_ne hcc').symm.trans he') hc' hslot

/-- Writing a property of the object changes no values. -/
theorem writeSlot {i : ℕ} {e : Expr} (he : w.heap.Confined root e) :
    L.Held natives root { w with heap := w.heap.write (.slot root i) e } := by
  have hdirect : ∀ o j, Cell.slot root i ≠ .element o j := by
    intro o j heq
    cases heq
  have hread {c : Cell} (hc : ∀ i, c ≠ .slot root i) :
      (w.heap.write (.slot root i) e).read? c = w.heap.read? c :=
    Heap.read?_write_of_ne _ _ (Ne.symm (hc i))
  exact hL.extend (w.heap.extends_write _ e hdirect) (fun c hc => hread (hL.ne_slot hc root))
    (hL.alone.write hdirect he) fun c hc => hread hc

/-- Marking the object as final changes no values. -/
theorem markSealed : L.Held natives root { w with heap := w.heap.markSealed root } :=
  hL.extend (w.heap.extends_markSealed root) (fun c _ => w.heap.read?_markSealed root c)
    hL.alone.markSealed fun c _ => w.heap.read?_markSealed root c

end Held

end Lanes

end ObjectGraph
