import ObjectGraph.Proofs.PlainObject

/-!
# Evaluating one plain object to its end

An invariant that passes keep, and a size that their reductions take away from, are all that is
needed to follow the evaluation of a plain object, as long as it is known that the object's properties
are terminal when nothing can be reduced (`Evaluation`). Every sweep keeps the invariant then, a
productive one leaves less to do, and an unproductive one finds the object final
(`Evaluation.ends_sweep`).
-/

namespace ObjectGraph

variable {σ : Type} {natives : Natives σ} {root : InstanceId}

/-- The properties of an object are terminal. -/
def Heap.SlotsTerminal (h : Heap) (root : InstanceId) : Prop :=
  ∀ i e, h.read? (.slot root i) = some e → e.isTerminal = true

/-- What is known of the worlds in which a plain object is evaluated: they satisfy `I`, and `size` is
what is left to do in their cells. The evaluation succeeds if `succeeds` holds. -/
structure Evaluation (natives : Natives σ) (root : InstanceId) (I : World σ → Prop)
    (size : World σ → ℕ) (succeeds : Prop) : Prop where
  /-- The object is alone. -/
  alone : ∀ {w}, I w → w.heap.Alone root
  /-- It is on the heap. -/
  placed : ∀ {w}, I w → root.index < w.heap.instances.size
  /-- It is plain. -/
  plain : ∀ {w}, I w → natives.nearest? w.types (w.heap.get root).ty = none
  /-- A pass over a cell keeps the invariant and does not make the object final. -/
  cell : ∀ {w final}, I w → (w.heap.get root).sealed = final → ∀ c,
    Ends (Effect.sweepCell natives c) w
      (Advances (fun w => I w ∧ (w.heap.get root).sealed = final) size w) fun _ _ => ¬succeeds
  /-- So does making it final, once its properties are terminal. -/
  finish : ∀ {w}, I w → w.heap.SlotsTerminal root →
    I { w with heap := w.heap.markSealed root } ∧
      size { w with heap := w.heap.markSealed root } = size w
  /-- If nothing can be reduced, the properties are terminal. -/
  idle : ∀ {w}, I w → succeeds → (w.heap.get root).sealed = false →
    Effect.CellsIdle natives root w → w.heap.SlotsTerminal root

/-- What is left to do: in the cells, and to make the object final. -/
def World.remaining (root : InstanceId) (size : World σ → ℕ) (w : World σ) : ℕ :=
  size w + if (w.heap.get root).sealed then 0 else 1

namespace Evaluation

variable {I : World σ → Prop} {size : World σ → ℕ} {succeeds : Prop} {order : SweepOrder}
  {w : World σ} (ev : Evaluation natives root I size succeeds)

include ev

/-- A sweep keeps the invariant. A productive one leaves less to do, and an unproductive one finds the
object final, supposing that the evaluation succeeds. -/
theorem ends_sweep (hw : I w) :
    Ends (Effect.sweep natives order root) w
      (fun cost w' => I w' ∧
        (cost.isProductive = true → w'.remaining root size < w.remaining root size) ∧
        (cost.isProductive = false → succeeds → (w'.heap.get root).sealed = true))
      fun _ _ => ¬succeeds := by
  -- Passes do not make the object final, so that they keep its mark as it was before the sweep.
  have hcell (c : Cell) (w' : World σ)
      (hw' : I w' ∧ (w'.heap.get root).sealed = (w.heap.get root).sealed) :=
    ev.cell hw'.1 hw'.2 c
  refine Effect.ends_sweep hcell ⟨hw, rfl⟩ ?_
  intro n w' hadv hidle scopes instances
  obtain ⟨hw', hsealed⟩ := hadv.keeps
  have hcount := hadv.count
  have hids {id : InstanceId} (hid : id ∈ (w.heap.discover root).instances.toList) :=
    (ev.alone hw).mem_discover.mp hid
  refine (Effect.ends_sealDiscovered (ev.alone hw') (ev.plain hw') (fun id hid => (hids hid).1)
    ?_).mono ?_ fun _ _ h => h.elim
  · intro hne
    obtain ⟨id, hid⟩ := List.exists_mem_of_ne_nil _ hne
    rw [hsealed]
    exact (hids hid).2
  · rintro sealed w'' (⟨rfl, rfl, hwhy⟩ | ⟨hpos, hne, hterm, rfl⟩)
    · refine ⟨hw', fun hprod => ?_, fun hprod hsucceeds => ?_⟩
      · simp only [SweepCost.isProductive, bne_self_eq_false, Bool.or_false, bne_iff_ne] at hprod
        simp only [World.remaining, hsealed]
        omega
      · simp only [SweepCost.isProductive, bne_self_eq_false, Bool.or_false, bne_eq_false_iff_eq]
          at hprod
        obtain rfl := hadv.idle hprod
        -- Were the object not final, it would have been found, with all its values terminal.
        refine Bool.not_eq_false _ ▸ fun hopen => ?_
        have hmem := (ev.alone hw).mem_discover.mpr ⟨rfl, hopen⟩
        rcases hwhy with hnil | hterm
        · rw [hnil] at hmem
          cases hmem
        · have hall := (ev.alone hw).values_all.mpr (ev.idle hw hsucceeds hopen (hidle hprod))
          rw [hall] at hterm
          cases hterm
    · obtain ⟨id, hid⟩ := List.exists_mem_of_ne_nil _ hne
      have hopen := (hids hid).2
      -- The object has become final, which is one thing less to do.
      obtain ⟨hkeeps, hsize⟩ := ev.finish hw' ((ev.alone hw').values_all.mp hterm)
      refine ⟨hkeeps, fun _ => ?_, fun hprod => ?_⟩
      · simp only [World.remaining, hsize, w'.heap.get_markSealed_self (ev.placed hw'), hopen,
          if_true, Bool.false_eq_true, if_false]
        omega
      · have hprod' : (⟨scopes, instances, n, sealed⟩ : SweepCost).isProductive = true := by
          simp only [SweepCost.isProductive, Bool.or_eq_true, bne_iff_ne]
          omega
        rw [hprod'] at hprod
        cases hprod

/-- **Every run that may take enough sweeps succeeds.** -/
theorem run_succeeds (hw : I w) (hsucceeds : succeeds) {left : ℕ}
    (hleft : w.remaining root size < left) (stats : RunStats) :
    Ends (Effect.runFrom natives order root left stats) w
      (fun _ w' => I w' ∧ (w'.heap.get root).sealed = true) fun _ _ => False :=
  Effect.ends_runFrom_of_size
    (fun _ hw => (ev.ends_sweep hw).mono
      (fun _ _ ⟨hw', hprod, hdone⟩ => ⟨hw', hprod, fun h => hdone h hsucceeds⟩)
      fun _ _ h => h hsucceeds)
    (fun _ hw => (ev.alone hw).promises) left stats hw hleft

/-- What holds after a successful run. -/
theorem run_ends (hw : I w) (left : ℕ) (stats : RunStats) :
    Ends (Effect.runFrom natives order root left stats) w
      (fun _ w' => I w' ∧ (w'.heap.get root).sealed = true) fun _ _ => True :=
  Effect.ends_runFrom
    (fun _ hw => (ev.ends_sweep hw).mono (fun _ _ h => h.1) fun _ _ _ => trivial)
    (fun _ hw => (ev.alone hw).promises) left stats hw

end Evaluation

end ObjectGraph
