import ObjectGraph.Proofs.Formula.Pass
import ObjectGraph.Proofs.PlainObject

/-!
# Sweeping the cells of a valuation

A pass over a cell of a valuation keeps all of its cells fitting and lowers what is left to do by
as much as it makes reductions (`Holds.ends_sweepCell`). It fails only if the cell has no value.
-/

namespace ObjectGraph

variable {σ : Type} {natives : Natives σ} {V : Valuation}

/-- How much there is left to do in a cell. -/
def Heap.weightAt (h : Heap) (c : Cell) : ℕ := ((h.read? c).map Expr.weight).getD 0

/-- How much there is left to do in the cells of a valuation. -/
def Valuation.weight (V : Valuation) (h : Heap) : ℕ := total h.weightAt V.cells

/-- What a pass over the cell `c` of a valuation that starts in `w` and ends in `w'` with `n`
reductions guarantees. -/
structure Swept (V : Valuation) (natives : Natives σ) (w : World σ) (c : Cell) (n : ℕ)
    (w' : World σ) : Prop where
  /-- Scalars have been added, and a formula has been written into the cell. -/
  written : ∃ h e, w.heap.Grows h ∧ w' = { w with heap := h.write c e } ∧ e.Formula V h none
  /-- All cells fit. -/
  holds : V.Holds natives w'
  /-- Reductions take something away from the cell's weight. -/
  count : n + w'.heap.weightAt c ≤ w.heap.weightAt c
  /-- Nothing changes without reductions. -/
  idle : n = 0 → w' = w
  /-- Nothing changes in a terminal cell. -/
  terminal : ∀ e, w.heap.read? c = some e → e.isTerminal = true → w' = w
  /-- What the cell holds reads nothing new. -/
  reads : ∀ e e', w.heap.read? c = some e → w'.heap.read? c = some e' →
    e'.reads w'.heap none ⊆ e.reads w.heap none
  /-- Without reductions the cell is terminal or waits for another one. -/
  waits : n = 0 → ∀ e, w.heap.read? c = some e → e.isTerminal = false →
    ∃ c' ∈ e.reads w.heap none, w.heap.Pending c'

namespace Valuation

/-- Cells that are not written keep fitting. -/
theorem Holds.write {w : World σ} (hw : V.Holds natives w) {c : Cell} {e : Expr}
    (hc : c ∈ V.cells) (hf : V.Fits w.heap c e) :
    V.Holds natives { w with heap := w.heap.write c e } where
  cell c' hc' := by
    have hx := w.heap.extends_write c e (hw.direct c hc)
    obtain ⟨e', he', hf'⟩ := hw.cell c' hc'
    by_cases heq : c = c'
    · subst heq
      refine ⟨e, ?_, hf.extend hx⟩
      rw [Heap.read?_write_self, he']
      rfl
    · refine ⟨e', ?_, hf'.extend hx⟩
      rw [Heap.read?_write_of_ne _ _ heq, he']
  direct := hw.direct
  plain hslot := by
    rw [Heap.ty_write]
    exact hw.plain hslot

/-- **A pass over a cell of a valuation** keeps all of its cells fitting. If it fails, the cell has
no value. -/
theorem Holds.ends_sweepCell (hn : natives.HasScalars) {w : World σ} (hw : V.Holds natives w)
    {c : Cell} (hc : c ∈ V.cells) :
    Ends (Effect.sweepCell natives c) w (Swept V natives w c) fun _ _ => V.value c = none := by
  obtain ⟨e, he, hfit⟩ := hw.cell c hc
  have hself : w.heap.write c e = w.heap := w.heap.write_of_read? he
  -- A terminal cell is passed over. Otherwise what the pass leaves is written back.
  refine Ends.bind (Ends.of_ok rfl ?_)
  simp only [he]
  cases hterm : e.isTerminal with
  | true =>
    refine Ends.of_ok rfl ⟨⟨w.heap, e, .refl, ?_, hfit.formula⟩, hw, ?_, fun _ => rfl,
      fun _ _ _ => rfl, fun e' e'' he' he'' => ?_, fun _ e' he' ht' => ?_⟩
    · rw [hself]
    · exact Nat.le_of_eq (Nat.zero_add _)
    · obtain rfl : e' = e'' := Option.some.inj (he'.symm.trans he'')
      exact List.Subset.refl _
    · rw [he, Option.some.injEq] at he'
      rw [← he', hterm] at ht'
      cases ht'
  | false =>
    refine Ends.bind (Effect.ends_pass ((hfit.formula.reduce hn ⟨w, 0⟩ hw .refl).mono ?_ ?_))
    · intro e' s' hp
      have hfit' : V.Fits s'.world.heap c e' :=
        ⟨hp.formula, hp.value.trans hfit.value, fun hv c' hc' => hfit.ranked hv c' (hp.reads hc')⟩
      have hcount : s'.reductions + e'.weight ≤ 0 + e.weight := hp.count
      have hread : s'.world.heap.read? c = some e := (hp.grows.read? c).trans he
      have hx := s'.world.heap.extends_write c e' (hw.direct c hc)
      have hwritten : (s'.world.heap.write c e').read? c = some e' := by
        rw [Heap.read?_write_self, hread]
        rfl
      refine Ends.of_ok rfl ⟨⟨s'.world.heap, e', hp.grows, ?_, hp.formula⟩,
        (hp.holds hw).write hc hfit', ?_, fun hz => ?_, fun e'' he'' ht'' => ?_,
        fun e₁ e₂ he₁ he₂ => ?_, fun hz e'' he'' ht'' => ?_⟩
      · rw [hp.world_eq]
      -- The pass starts without reductions, so that all of them are taken from this cell.
      · simp only [Heap.weightAt, Heap.read?_write_self, hread, he, Option.map_some,
          Option.getD_some]
        omega
      · obtain ⟨rfl, rfl, -⟩ := hp.idle hz
        show { w with heap := w.heap.write c e' } = w
        rw [hself]
      · rw [he, Option.some.injEq] at he''
        rw [← he'', hterm] at ht''
        cases ht''
      · obtain rfl : e = e₁ := Option.some.inj (he.symm.trans he₁)
        obtain rfl : e' = e₂ := Option.some.inj (hwritten.symm.trans he₂)
        rw [hp.formula.reads_extend hx]
        exact hp.reads
      · rw [he, Option.some.injEq] at he''
        subst he''
        exact (hp.idle hz).2.2 hterm
    · exact fun _ _ hv => hfit.value.symm.trans hv

end Valuation

namespace Swept

variable {w w' : World σ} {c : Cell} {n : ℕ}

/-- Other cells hold what they held. -/
theorem read?_of_ne (hs : Swept V natives w c n w') {c' : Cell} (hc : c ≠ c') :
    w'.heap.read? c' = w.heap.read? c' := by
  obtain ⟨h, e, hg, rfl, -⟩ := hs.written
  rw [Heap.read?_write_of_ne _ _ hc, hg.read?]

/-- The heap is extended. -/
theorem extension (hs : Swept V natives w c n w') (hc : ∀ o i, c ≠ .element o i) :
    w.heap.Extends w'.heap := by
  obtain ⟨h, e, hg, rfl, -⟩ := hs.written
  exact hg.extension.trans (h.extends_write c e hc)

/-- No instance becomes final. -/
theorem isSealed (hs : Swept V natives w c n w') {id : InstanceId}
    (hid : id.index < w.heap.instances.size) :
    (w'.heap.get id).sealed = (w.heap.get id).sealed := by
  obtain ⟨h, e, hg, rfl, -⟩ := hs.written
  show ((h.write c e).get id).sealed = _
  rcases hg.get id with hget | ⟨hle, -⟩
  · rw [Heap.sealed_write, hget]
  · exact absurd hid (Nat.not_lt_of_le hle)

/-- The types stay. -/
theorem types (hs : Swept V natives w c n w') : w'.types = w.types := by
  obtain ⟨h, e, -, rfl, -⟩ := hs.written
  rfl

/-- The reductions take something away from the weight of all cells. -/
theorem weight (hs : Swept V natives w c n w') (hc : c ∈ V.cells) :
    n + V.weight w'.heap ≤ V.weight w.heap := by
  have hle (c' : Cell) : w'.heap.weightAt c' ≤ w.heap.weightAt c' := by
    by_cases heq : c = c'
    · subst heq
      have hcount := hs.count
      omega
    · simp only [Heap.weightAt, hs.read?_of_ne heq, Nat.le_refl]
  exact total_lower hc hle hs.count

end Swept

end ObjectGraph
