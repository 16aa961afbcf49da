import ObjectGraph.Proofs.Discovery
import ObjectGraph.Proofs.Outcome
import ObjectGraph.Run.Evaluator

/-!
# Sweeps and runs

What holds of a single cell's pass holds of a sweep, in whatever order the sweep goes through what
it has found: an invariant that every pass keeps is kept by the sweep, and a size that every
reduction takes something away from bounds the reductions of the sweep (`ends_sweep`). A sweep
without reductions has left each cell that it found as it was (`CellsIdle`).

A run is followed in two ways. `ends_runFrom_of_size` says that a run succeeds if productive sweeps
lower a size and an unproductive one finds the root sealed, with any allowance above the size.
`ends_runFrom` says what holds after a run of which nothing else is known than that it succeeds.
-/

namespace ObjectGraph

/-- The node that a cell belongs to. -/
def Cell.node : Cell → Node
  | .binding scope _ => .scope scope
  | .slot owner _ | .element owner _ => .object owner

namespace Heap

variable {h : Heap} {e : Expr}

/-- A scope's cells are its bindings. -/
theorem mem_bindingCells {id : ScopeId} {i : ℕ} (he : h.read? (.binding id i) = some e) :
    .binding id i ∈ h.bindingCells id := by
  obtain ⟨b, hb, -⟩ := Option.map_eq_some_iff.mp he
  have hi := (List.getElem?_eq_some_iff.mp hb).1
  exact List.mem_map.mpr ⟨i, List.mem_range.mpr hi, rfl⟩

/-- An instance's slot cells are its properties. -/
theorem mem_slotCells {id : InstanceId} {i : ℕ} (he : h.read? (.slot id i) = some e) :
    .slot id i ∈ h.slotCells id := by
  obtain ⟨b, hb, -⟩ := Option.map_eq_some_iff.mp he
  have hi := (List.getElem?_eq_some_iff.mp hb).1
  exact List.mem_map.mpr ⟨i, List.mem_range.mpr hi, rfl⟩

/-- An instance's element cells are its elements. -/
theorem mem_elementCells {id : InstanceId} {i : ℕ} (he : h.read? (.element id i) = some e) :
    .element id i ∈ h.elementCells id := by
  have hi := (List.getElem?_eq_some_iff.mp he).1
  exact List.mem_map.mpr ⟨i, List.mem_range.mpr hi, rfl⟩

end Heap

/-- Arranging a list keeps what is in it. -/
theorem SweepOrder.mem_arrange {α : Type} {order : SweepOrder} {items : List α} {item : α} :
    item ∈ order.arrange items ↔ item ∈ items := by
  cases order with
  | declared => exact Iff.rfl
  | reverse => exact List.mem_reverse

/-- The sum of a size over the items of a list. -/
def total {α : Type} (size : α → ℕ) : List α → ℕ
  | [] => 0
  | item :: items => size item + total size items

/-- The sum over a list in two parts. -/
theorem total_append {α : Type} (size : α → ℕ) (items items' : List α) :
    total size (items ++ items') = total size items + total size items' := by
  induction items with
  | nil => exact (Nat.zero_add _).symm
  | cons item items ih => rw [List.cons_append, total, total, ih, Nat.add_assoc]

/-- A sum of smaller sizes is smaller. -/
theorem total_le {α : Type} {size size' : α → ℕ} {items : List α}
    (h : ∀ item ∈ items, size' item ≤ size item) : total size' items ≤ total size items := by
  induction items with
  | nil => exact Nat.le_refl _
  | cons item items ih =>
    exact Nat.add_le_add (h item List.mem_cons_self)
      (ih fun other hother => h other (List.mem_cons_of_mem _ hother))

/-- The size of an item is part of the sum. -/
theorem le_total {α : Type} {size : α → ℕ} {items : List α} {item : α} (hmem : item ∈ items) :
    size item ≤ total size items := by
  obtain ⟨before, after, rfl⟩ := List.append_of_mem hmem
  rw [total_append, total]
  omega

/-- A sum in which the size of one item has gone down by `n`, and no size has gone up. -/
theorem total_lower {α : Type} {size size' : α → ℕ} {items : List α} {item : α} {n : ℕ}
    (hmem : item ∈ items) (hle : ∀ other, size' other ≤ size other)
    (hlower : n + size' item ≤ size item) : n + total size' items ≤ total size items := by
  obtain ⟨before, after, rfl⟩ := List.append_of_mem hmem
  have hbefore : total size' before ≤ total size before := total_le fun other _ => hle other
  have hafter : total size' after ≤ total size after := total_le fun other _ => hle other
  simp only [total_append, total]
  omega

/-- A sum in which the size of one item has changed, and no other size has. -/
theorem total_change {α : Type} (size size' : α → ℕ) {items : List α} {item : α}
    (hnodup : items.Nodup) (hmem : item ∈ items)
    (hsame : ∀ other ∈ items, other ≠ item → size' other = size other) :
    total size' items + size item = total size items + size' item := by
  obtain ⟨before, after, rfl⟩ := List.append_of_mem hmem
  obtain ⟨-, hafter, hdisjoint⟩ := List.nodup_append.mp hnodup
  have heq {part : List α} (hpart : ∀ other ∈ part, other ∈ before ++ item :: after ∧ other ≠ item) :
      total size' part = total size part := by
    refine Nat.le_antisymm (total_le fun other ho => ?_) (total_le fun other ho => ?_)
    · exact Nat.le_of_eq (hsame other (hpart other ho).1 (hpart other ho).2)
    · exact Nat.le_of_eq (hsame other (hpart other ho).1 (hpart other ho).2).symm
  have hbefore : total size' before = total size before := heq fun other ho =>
    ⟨List.mem_append_left _ ho, hdisjoint other ho item List.mem_cons_self⟩
  have hrest : total size' after = total size after := heq fun other ho => by
    refine ⟨List.mem_append_right _ (List.mem_cons_of_mem _ ho), ?_⟩
    rintro rfl
    exact (List.nodup_cons.mp hafter).1 ho
  simp only [total_append, total, hbefore, hrest]
  omega

/-- The sum over a list in which one item has been changed. -/
theorem total_modify {α : Type} (size : α → ℕ) (f : α → α) {items : List α} {i : ℕ} {item : α}
    (hi : items[i]? = some item) :
    total size (items.modify i f) + size item = total size items + size (f item) := by
  induction items generalizing i with
  | nil => cases hi
  | cons first items ih =>
    cases i with
    | zero =>
      obtain rfl : first = item := Option.some.inj hi
      simp only [List.modify_zero_cons, total]
      omega
    | succ i =>
      have hrest := ih (i := i) hi
      simp only [List.modify_succ_cons, total]
      omega

variable {σ : Type} {natives : Natives σ}

/-- From `w`, a step has come to `w'` with `n` reductions: the invariant holds, the size has gone
down by as much at least, and without reductions nothing has changed. -/
structure Advances (I : World σ → Prop) (size : World σ → ℕ) (w : World σ) (n : ℕ)
    (w' : World σ) : Prop where
  /-- The invariant holds. -/
  keeps : I w'
  /-- Reductions lower the size. -/
  count : n + size w' ≤ size w
  /-- Nothing changes without them. -/
  idle : n = 0 → w' = w

namespace Advances

variable {I : World σ → Prop} {size : World σ → ℕ} {w w₁ w₂ : World σ} {n m : ℕ}

/-- Doing nothing takes no reductions. -/
theorem refl (hw : I w) : Advances I size w 0 w := ⟨hw, Nat.le_of_eq (Nat.zero_add _), fun _ => rfl⟩

/-- One step after another: their reductions add up. -/
theorem trans (ha : Advances I size w n w₁) (hb : Advances I size w₁ m w₂) :
    Advances I size w (n + m) w₂ where
  keeps := hb.keeps
  count := by
    have hca := ha.count
    have hcb := hb.count
    omega
  idle hz := by rw [hb.idle (by omega), ha.idle (by omega)]

end Advances

namespace Effect

/-- A pass over a cell leaves the world as it is. -/
def Idle (natives : Natives σ) (w : World σ) (c : Cell) : Prop := sweepCell natives c w = .ok 0 w

/-- A pass passes over a cell that is not there or whose value is terminal. -/
theorem idle_of_quiet {w : World σ} {c : Cell}
    (hquiet : ∀ e, w.heap.read? c = some e → e.isTerminal = true) : Idle natives w c := by
  unfold Idle sweepCell
  rw [bind_of_ok (read_apply _ w)]
  cases he : w.heap.read? c with
  | none => rfl
  | some e => simp only [hquiet e he, if_true]; rfl

/-- A sweep leaves every cell as it is that it comes to. -/
def CellsIdle (natives : Natives σ) (root : InstanceId) (w : World σ) : Prop :=
  ∀ c e, w.heap.read? c = some e → (w.heap.discover root).has c.node = true → Idle natives w c

section Sweep

variable {I : World σ → Prop} {size : World σ → ℕ} {fails : Prop}

/-- A sum of steps advances as its steps do. Without reductions each of the steps was idle. -/
theorem ends_sumOver {α : Type} {step : α → Effect σ ℕ}
    (hstep : ∀ item w, I w → Ends (step item) w (Advances I size w) fun _ _ => fails)
    (items : List α) {w : World σ} (hw : I w) :
    Ends (sumOver step items) w
      (fun n w' => Advances I size w n w' ∧ (n = 0 → ∀ item ∈ items, step item w = .ok 0 w))
      fun _ _ => fails := by
  induction items generalizing w with
  | nil =>
    exact Ends.of_ok rfl ⟨.refl hw, fun _ item hitem => absurd hitem List.not_mem_nil⟩
  | cons item items ih =>
    refine Ends.bind ((hstep item w hw).and_eq.mono ?_ fun _ _ h => h)
    intro n w₁ ⟨heq, ha⟩
    refine Ends.bind ((ih ha.keeps).mono ?_ fun _ _ h => h)
    intro m w₂ ⟨hb, hidle⟩
    refine Ends.of_ok rfl ⟨ha.trans hb, fun hz => ?_⟩
    obtain ⟨rfl, rfl⟩ := Nat.add_eq_zero_iff.mp hz
    obtain rfl := ha.idle rfl
    rintro other (_ | ⟨_, hother⟩)
    · exact heq
    · exact hidle rfl other hother

variable (hcell : ∀ c w, I w → Ends (sweepCell natives c) w (Advances I size w) fun _ _ => fails)

include hcell

/-- A sweep over a scope. -/
theorem ends_sweepScope (order : SweepOrder) (id : ScopeId) {w : World σ} (hw : I w) :
    Ends (sweepScope natives order id) w
      (fun n w' => Advances I size w n w' ∧
        (n = 0 → ∀ c ∈ w.heap.bindingCells id, Idle natives w c))
      fun _ _ => fails := by
  refine Ends.bind (Ends.of_ok rfl ((ends_sumOver hcell _ hw).mono ?_ fun _ _ h => h))
  exact fun n w' ⟨ha, hidle⟩ =>
    ⟨ha, fun hz c hc => hidle hz c (SweepOrder.mem_arrange.mpr hc)⟩

/-- A sweep over an instance. -/
theorem ends_sweepInstance (order : SweepOrder) (id : InstanceId) {w : World σ} (hw : I w) :
    Ends (sweepInstance natives order id) w
      (fun n w' => Advances I size w n w' ∧
        (n = 0 → ∀ c ∈ w.heap.slotCells id ++ w.heap.elementCells id, Idle natives w c))
      fun _ _ => fails := by
  refine Ends.bind (Ends.of_ok rfl (Ends.bind ((ends_sumOver hcell _ hw).mono ?_ fun _ _ h => h)))
  intro n w₁ ⟨ha, hslots⟩
  refine Ends.bind (Ends.of_ok rfl
    (Ends.bind ((ends_sumOver hcell _ ha.keeps).mono ?_ fun _ _ h => h)))
  intro m w₂ ⟨hb, helements⟩
  refine Ends.of_ok rfl ⟨ha.trans hb, fun hz c hc => ?_⟩
  obtain ⟨rfl, rfl⟩ := Nat.add_eq_zero_iff.mp hz
  obtain rfl := ha.idle rfl
  rcases List.mem_append.mp hc with hc | hc
  · exact hslots rfl c (SweepOrder.mem_arrange.mpr hc)
  · exact helements rfl c (SweepOrder.mem_arrange.mpr hc)

/-- The passes of a sweep, up to its sealing. -/
theorem ends_sweep {order : SweepOrder} {root : InstanceId} {w : World σ} (hw : I w)
    {yields : SweepCost → World σ → Prop}
    (hseal : ∀ n w', Advances I size w n w' → (n = 0 → CellsIdle natives root w) →
      ∀ scopes instances,
        Ends (sealDiscovered natives (w.heap.discover root).instances.toList) w'
          (fun sealed w'' => yields ⟨scopes, instances, n, sealed⟩ w'') fun _ _ => fails) :
    Ends (sweep natives order root) w yields fun _ _ => fails := by
  have hscope (id : ScopeId) (w : World σ) (hw : I w) :=
    (ends_sweepScope hcell order id hw).mono (fun _ _ h => h.1) fun _ _ h => h
  have hinstance (id : InstanceId) (w : World σ) (hw : I w) :=
    (ends_sweepInstance hcell order id hw).mono (fun _ _ h => h.1) fun _ _ h => h
  refine Ends.bind (Ends.of_ok rfl (Ends.bind ((ends_sumOver hscope _ hw).mono ?_ fun _ _ h => h)))
  intro n w₁ ⟨ha, hscopes⟩
  refine Ends.bind ((ends_sumOver hinstance _ ha.keeps).mono ?_ fun _ _ h => h)
  intro m w₂ ⟨hb, hinstances⟩
  -- Without reductions both halves began in `w`, so that what they say of their cells is of `w`.
  have hall (hz : n + m = 0) : CellsIdle natives root w := by
    intro c e he hc
    obtain ⟨rfl, rfl⟩ := Nat.add_eq_zero_iff.mp hz
    obtain rfl := ha.idle rfl
    have hfound {store : Store} {listing : Listing store} {id : Handle store}
        (h : listing.contains id = true) : id ∈ order.arrange listing.toList :=
      SweepOrder.mem_arrange.mpr (Listing.mem_toList.mpr h)
    cases c with
    | binding id i =>
      exact ((ends_sweepScope hcell order id hw).ok (hscopes rfl id (hfound hc))).2 rfl _
        (Heap.mem_bindingCells he)
    | slot id i =>
      exact ((ends_sweepInstance hcell order id hw).ok (hinstances rfl id (hfound hc))).2 rfl _
        (List.mem_append_left _ (Heap.mem_slotCells he))
    | element id i =>
      exact ((ends_sweepInstance hcell order id hw).ok (hinstances rfl id (hfound hc))).2 rfl _
        (List.mem_append_right _ (Heap.mem_elementCells he))
  refine Ends.bind ((hseal (n + m) w₂ (ha.trans hb) hall (w.heap.discover root).scopes.size
    (w.heap.discover root).instances.size).mono ?_ fun _ _ h => h)
  exact fun sealed w' hy => Ends.of_ok rfl hy

end Sweep

/-! ## Runs -/

section Runs

variable {I : World σ → Prop} {order : SweepOrder} {root : InstanceId}

/-- On a heap without promises none is waiting. -/
theorem waiting_eq_nil {w : World σ} (hp : w.heap.promises = #[]) :
    waiting root w = .ok [] w := by
  have hpending (id : PromiseId) : (w.heap.promise id).isPending = false := by
    simp only [Heap.promise, hp]
    rfl
  have hnone : (w.heap.discover root).promises.toList.filter
      (fun id => (w.heap.promise id).isPending) = [] :=
    List.filter_eq_nil_iff.mpr fun id _ => by rw [hpending]; exact Bool.false_ne_true
  exact congrArg (EStateM.Result.ok · w) hnone

/-- What a run ends with, if sweeps keep an invariant and no promises are made. -/
theorem ends_runFrom
    (hsweep : ∀ w, I w → Ends (sweep natives order root) w (fun _ w' => I w') fun _ _ => True)
    (hp : ∀ w, I w → w.heap.promises = #[]) (left : ℕ) (stats : RunStats) {w : World σ}
    (hw : I w) :
    Ends (runFrom natives order root left stats) w
      (fun _ w' => I w' ∧ (w'.heap.get root).sealed = true) fun _ _ => True := by
  induction left generalizing stats w with
  | zero => exact Ends.of_error rfl trivial
  | succ left ih =>
    refine Ends.bind ((hsweep w hw).mono ?_ fun _ _ h => h)
    intro cost w' hw'
    simp only
    split
    case isTrue => exact ih _ hw'
    case isFalse =>
      refine Ends.bind (Ends.of_ok (waiting_eq_nil (hp w' hw')) ?_)
      refine Ends.bind (Ends.of_ok (instanceOf_apply root w') ?_)
      split
      case isTrue hs => exact Ends.of_ok rfl ⟨hw', hs⟩
      case isFalse => exact Ends.of_error rfl trivial

/-- A run succeeds, if productive sweeps lower a size below the allowance and an unproductive one
finds the root sealed. -/
theorem ends_runFrom_of_size {size : World σ → ℕ}
    (hsweep : ∀ w, I w → Ends (sweep natives order root) w
      (fun cost w' => I w' ∧ (cost.isProductive = true → size w' < size w) ∧
        (cost.isProductive = false → (w'.heap.get root).sealed = true))
      fun _ _ => False)
    (hp : ∀ w, I w → w.heap.promises = #[]) (left : ℕ) (stats : RunStats) {w : World σ}
    (hw : I w) (hleft : size w < left) :
    Ends (runFrom natives order root left stats) w
      (fun _ w' => I w' ∧ (w'.heap.get root).sealed = true) fun _ _ => False := by
  induction left generalizing stats w with
  | zero => exact absurd hleft (Nat.not_lt_zero _)
  | succ left ih =>
    refine Ends.bind ((hsweep w hw).mono ?_ fun _ _ h => h)
    intro cost w' ⟨hw', hprod, hdone⟩
    simp only
    split
    case isTrue hcost =>
      have hlt := hprod hcost
      exact ih _ hw' (by omega)
    case isFalse hcost =>
      have hs := hdone (Bool.eq_false_iff.mpr hcost)
      refine Ends.bind (Ends.of_ok (waiting_eq_nil (hp w' hw')) ?_)
      refine Ends.bind (Ends.of_ok (instanceOf_apply root w') ?_)
      rw [if_pos hs]
      exact Ends.of_ok rfl ⟨hw', hs⟩

end Runs

end Effect

end ObjectGraph
