import ObjectGraph.Proofs.Evaluation
import ObjectGraph.Proofs.Formula.Sweep

/-!
# Evaluating an object of formulas

A valuation governs the evaluation of a plain object if the object is alone and all that is left to
evaluate are formulas that fit the valuation's cells (`Valuation.Governs`). Sweeps keep this,
whatever their order. If every cell has a value, the evaluation succeeds; and if it succeeds, every
property of the object has become the instance of its value.
-/

namespace ObjectGraph

variable {σ : Type} {natives : Natives σ} {V : Valuation} {root : InstanceId}

/-- A formula mentions scalars, scopes, and the owners of the properties it reads. -/
theorem Expr.Formula.confined {h : Heap} {scope : Option ScopeId} {e : Expr}
    (hf : e.Formula V h scope) (hv : ∀ {id i}, Cell.slot id i ∈ V.cells → id = root) :
    h.Confined root e := by
  induction hf with
  | scalar v => exact fun n hn => absurd hn List.not_mem_nil
  | @object scope id v hs =>
    intro n hn
    rw [List.mem_singleton.mp hn]
    exact .inr ⟨v, hs⟩
  | param | localVar => exact fun n hn => absurd hn List.not_mem_nil
  | @member scope subject name c ty hc hm =>
    intro n hn
    cases subject with
    | this => exact absurd hn List.not_mem_nil
    | object id =>
      obtain ⟨i, -, rfl⟩ := Option.map_eq_some_iff.mp (show h.slotCell? id name = some c from hc)
      rw [List.mem_singleton.mp hn]
      exact .inl (hv hm)
    | _ => cases hc
  | @binary scope op lhs rhs ty _ _ _ _ ihl ihr =>
    intro n hn
    rw [Heap.handles_binary] at hn
    rcases List.mem_append.mp hn with hn | hn
    · exact ihl n hn
    · exact ihr n hn
  | unary ty _ _ ih => exact ih
  | @within scope inner body _ ih =>
    intro n hn
    rcases List.mem_cons.mp hn with rfl | hn
    · trivial
    · exact ih n hn

/-- The valuation governs the evaluation of the object `root` that has been going on since `w₀`. -/
structure Valuation.Governs (V : Valuation) (natives : Natives σ) (root : InstanceId)
    (w₀ w : World σ) : Prop where
  /-- No types have been registered. -/
  types : w.types = w₀.types
  /-- The heap has been extended only. -/
  since : w₀.heap.Extends w.heap
  /-- The valuation's cells hold fitting formulas. -/
  holds : V.Holds natives w
  /-- The object is alone. -/
  alone : w.heap.Alone root
  /-- The object is on the heap. -/
  placed : root.index < w.heap.instances.size
  /-- The object is plain. -/
  plain : natives.nearest? w.types (w.heap.get root).ty = none
  /-- The properties among the cells are the object's. -/
  owner : ∀ {id i}, Cell.slot id i ∈ V.cells → id = root
  /-- The bindings among the cells are of the object's constructor scopes. -/
  near : ∀ {s i}, Cell.binding s i ∈ V.cells → s ∈ (w.heap.get root).scopes.map (·.2)
  /-- All other cells are terminal. -/
  quiet : ∀ {c e}, w.heap.read? c = some e → c ∉ V.cells → e.isTerminal = true
  /-- The object is final only if its properties are terminal. -/
  final : (w.heap.get root).sealed = true →
    ∀ i e, w.heap.read? (.slot root i) = some e → e.isTerminal = true

/-- Every cell of the valuation has a value. -/
def Valuation.IsTotal (V : Valuation) : Prop := ∀ c ∈ V.cells, (V.value c).isSome = true

namespace Valuation.Governs

variable {w₀ w : World σ}

/-- A pass over a cell keeps the valuation governing. -/
theorem swept (hw : V.Governs natives root w₀ w) {c : Cell} {n : ℕ} {w' : World σ}
    (hc : c ∈ V.cells) (hs : Swept V natives w c n w') : V.Governs natives root w₀ w' := by
  have hdirect := hw.holds.direct c hc
  have hx := hs.extension hdirect
  refine ⟨hs.types.trans hw.types, hw.since.trans hx, hs.holds, ?_,
    Nat.lt_of_lt_of_le hw.placed hx.size, ?_, hw.owner, ?_, ?_, ?_⟩
  -- The object stays alone: new instances are scalars, and formulas mention nothing else.
  · obtain ⟨h, e, hg, rfl, hf⟩ := hs.written
    exact (hw.alone.grow hw.placed hg).write hdirect (hf.confined hw.owner)
  · rw [hs.types, hx.ty hw.placed]
    exact hw.plain
  · intro s i hsi
    rw [hx.scopes hw.placed]
    exact hw.near hsi
  · intro c' e' hread hc'
    have hne : c ≠ c' := by
      rintro rfl
      exact hc' hc
    rw [hs.read?_of_ne hne] at hread
    exact hw.quiet hread hc'
  · intro hsealed i e hread
    rw [hs.isSealed hw.placed] at hsealed
    by_cases hci : c = .slot root i
    · subst hci
      obtain ⟨e', he', -⟩ := hw.holds.cell _ hc
      rw [hs.terminal e' he' (hw.final hsealed i e' he')] at hread
      exact hw.final hsealed i e hread
    · rw [hs.read?_of_ne hci] at hread
      exact hw.final hsealed i e hread

/-- A pass over any cell keeps the valuation governing, and fails only if some cell has no value. -/
theorem ends_sweepCell (hn : natives.HasScalars) (hw : V.Governs natives root w₀ w) (c : Cell)
    {final : Bool} (hfinal : (w.heap.get root).sealed = final) :
    Ends (Effect.sweepCell natives c) w
      (Advances (fun w => V.Governs natives root w₀ w ∧ (w.heap.get root).sealed = final)
        (V.weight ·.heap) w)
      fun _ _ => ¬V.IsTotal := by
  by_cases hc : c ∈ V.cells
  · refine (hw.holds.ends_sweepCell hn hc).mono (fun n w' hs => ?_) fun _ _ hv htotal => ?_
    · exact ⟨⟨hw.swept hc hs, (hs.isSealed hw.placed).trans hfinal⟩, hs.weight hc, hs.idle⟩
    · have hsome := htotal c hc
      rw [hv] at hsome
      cases hsome
  · have hskip : Effect.Idle natives w c := Effect.idle_of_quiet fun e hread => hw.quiet hread hc
    exact Ends.of_ok hskip (.refl ⟨hw, hfinal⟩)

/-- If every cell has a value and none can be reduced, all of them are terminal. A cell that is not
would wait for one of lower rank. -/
theorem terminal_of_idle (hn : natives.HasScalars) (hw : V.Governs natives root w₀ w)
    (htotal : V.IsTotal) (hidle : ∀ c ∈ V.cells, Effect.Idle natives w c) {c : Cell} {e : Expr}
    (hread : w.heap.read? c = some e) : e.isTerminal = true := by
  by_cases hc : c ∈ V.cells
  -- Ranks fall from a waiting cell to the one it waits for, so the waiting ends somewhere.
  · induction hr : V.rank c using Nat.strongRecOn generalizing c e with
    | _ r ih =>
      subst hr
      refine Bool.not_eq_false _ ▸ fun hterm => ?_
      have hswept := (hw.holds.ends_sweepCell hn hc).ok (hidle c hc)
      obtain ⟨c', hc', e', hread', hpending⟩ := hswept.waits rfl e hread hterm
      have hfit := hw.holds.fits hc hread
      have hlt := hfit.ranked (htotal c hc) c' hc'
      rw [ih _ hlt hread' (hfit.formula.mem_cells hc') rfl] at hpending
      cases hpending
  · exact hw.quiet hread hc

/-- The cells of a valuation are found as long as the object is not final. -/
theorem has_discover (hw : V.Governs natives root w₀ w)
    (hopen : (w.heap.get root).sealed = false) {c : Cell} (hc : c ∈ V.cells) :
    (w.heap.discover root).has c.node = true := by
  rw [Heap.has_discover_iff]
  cases c with
  | binding s i =>
    obtain ⟨entry, hentry, rfl⟩ := List.mem_map.mp (hw.near hc)
    refine ⟨Relation.ReflTransGen.single ?_, rfl⟩
    rw [Heap.leads, hopen]
    exact List.mem_append_left _ (List.mem_map.mpr ⟨entry, hentry, rfl⟩)
  | slot id i =>
    obtain rfl := hw.owner hc
    exact ⟨.refl, by simp only [Cell.node, Heap.isOpen, hopen, Bool.not_false]⟩
  | element id i => exact absurd rfl (hw.holds.direct _ hc id i)

/-- Marking the object as final keeps the valuation governing, once the properties are
terminal. -/
theorem markSealed (hw : V.Governs natives root w₀ w)
    (hterm : ∀ i e, w.heap.read? (.slot root i) = some e → e.isTerminal = true) :
    V.Governs natives root w₀ { w with heap := w.heap.markSealed root } := by
  have hx := w.heap.extends_markSealed root
  have hholds : V.Holds natives { w with heap := w.heap.markSealed root } := by
    refine hw.holds.extend hx (fun c _ => w.heap.read?_markSealed root c) fun {id i} hc => ?_
    obtain rfl := hw.owner hc
    show natives.nearest? w.types ((w.heap.markSealed id).get id).ty = none
    rw [hx.ty hw.placed]
    exact hw.plain
  refine ⟨hw.types, hw.since.trans hx, hholds, hw.alone.markSealed,
    Nat.lt_of_lt_of_le hw.placed hx.size, ?_, hw.owner, fun hc => ?_, fun {c e} hread hc => ?_,
    fun _ i e hread => ?_⟩
  · rw [hx.ty hw.placed]
    exact hw.plain
  · rw [hx.scopes hw.placed]
    exact hw.near hc
  · rw [Heap.read?_markSealed] at hread
    exact hw.quiet hread hc
  · rw [Heap.read?_markSealed] at hread
    exact hterm i e hread

/-- The evaluation of an object that a valuation governs succeeds if every cell has a value. -/
theorem evaluation (hn : natives.HasScalars) :
    Evaluation natives root (V.Governs natives root w₀) (V.weight ·.heap) V.IsTotal where
  alone hw := hw.alone
  placed hw := hw.placed
  plain hw := hw.plain
  cell hw hfinal c := hw.ends_sweepCell hn c hfinal
  finish {w} hw hterm := by
    have hweightAt : (w.heap.markSealed root).weightAt = w.heap.weightAt :=
      funext fun c => by rw [Heap.weightAt, Heap.read?_markSealed, Heap.weightAt]
    refine ⟨hw.markSealed hterm, ?_⟩
    show V.weight (w.heap.markSealed root) = V.weight w.heap
    rw [Valuation.weight, hweightAt, Valuation.weight]
  idle {w} hw htotal hopen hidle i e hread := by
    refine hw.terminal_of_idle hn htotal (fun c hc => ?_) hread
    obtain ⟨e', he', -⟩ := hw.holds.cell c hc
    exact hidle c e' he' (hw.has_discover hopen hc)

/-- Once the object is final, each of its properties among the cells is the instance of its
value. -/
theorem slot_of_sealed (hw : V.Governs natives root w₀ w)
    (hsealed : (w.heap.get root).sealed = true) {i : ℕ} (hc : Cell.slot root i ∈ V.cells) :
    ∃ id v, w.heap.read? (.slot root i) = some (.object id) ∧ w.heap.IsScalar id v ∧
      V.value (.slot root i) = some v := by
  obtain ⟨e, he, hfit⟩ := hw.holds.cell _ hc
  obtain ⟨id, v, rfl, hv⟩ := hfit.formula.of_isTerminal (hw.final hsealed i e he)
  exact ⟨id, v, he, hv, hfit.value.symm.trans hv.scalar?⟩

end Valuation.Governs

end ObjectGraph
