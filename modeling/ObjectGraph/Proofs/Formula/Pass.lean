import ObjectGraph.Proofs.Formula.Value

/-!
# One pass over a formula

A pass over a formula keeps its value. If it fails, the formula has no value (`Formula.reduce`).
What it leaves is again a formula, which reads no new cells, and every reduction takes something
away from its weight. A pass without reductions changes nothing at all, and then the formula waits
for one of the cells that it reads.
-/

namespace ObjectGraph

variable {σ : Type} {natives : Natives σ}

/-- The cell holds something that is still to be evaluated. -/
def Heap.Pending (h : Heap) (c : Cell) : Prop :=
  ∃ e, h.read? c = some e ∧ e.isTerminal = false

/-- An expression fits a cell if it is a formula of the cell's value, and if it reads cells of lower
rank only, supposing that the cell has a value. -/
structure Valuation.Fits (V : Valuation) (h : Heap) (c : Cell) (e : Expr) : Prop where
  /-- The expression is a formula. -/
  formula : e.Formula V h none
  /-- It has the value of the cell. -/
  value : e.valueIn V h none = V.value c
  /-- It reads cells of lower rank. -/
  ranked : (V.value c).isSome = true → ∀ c' ∈ e.reads h none, V.rank c' < V.rank c

/-- Every cell of the valuation holds an expression that fits it, and the properties among them
belong to plain objects. -/
structure Valuation.Holds (V : Valuation) (natives : Natives σ) (w : World σ) : Prop where
  /-- The cells hold fitting expressions. -/
  cell : ∀ c ∈ V.cells, ∃ e, w.heap.read? c = some e ∧ V.Fits w.heap c e
  /-- None of them is an element of an array. -/
  direct : ∀ c ∈ V.cells, ∀ o i, c ≠ .element o i
  /-- Properties are looked up among the slots. -/
  plain : ∀ {id i}, Cell.slot id i ∈ V.cells →
    natives.nearest? w.types (w.heap.get id).ty = none

namespace Valuation

variable {V : Valuation}

/-- What fits a cell fits it in every extension. -/
theorem Fits.extend {h h' : Heap} {c : Cell} {e : Expr} (hf : V.Fits h c e)
    (hx : h.Extends h') : V.Fits h' c e where
  formula := hf.formula.extend hx
  value := (hf.formula.valueIn_extend hx).trans hf.value
  ranked hv := by
    rw [hf.formula.reads_extend hx]
    exact hf.ranked hv

/-- What fits a cell fits it for every valuation with the same ranks and, where it matters, the same
values. -/
theorem Fits.change {h : Heap} {c : Cell} {e : Expr} (hf : V.Fits h c e) (V' : Valuation)
    (hrank : V'.rank = V.rank) (hvalue : V'.value c = V.value c)
    (hcells : ∀ c' ∈ e.reads h none, c' ∈ V'.cells ∧ V'.value c' = V.value c') :
    V'.Fits h c e := by
  obtain ⟨hformula, hsame⟩ := hf.formula.change V' hcells
  refine ⟨hformula, hsame.trans (hf.value.trans hvalue.symm), fun hsome c' hc' => ?_⟩
  rw [hrank]
  exact hf.ranked (hvalue ▸ hsome) c' hc'

/-- Whatever a cell of a valuation holds fits it. -/
theorem Holds.fits {w : World σ} (hw : V.Holds natives w) {c : Cell} {e : Expr} (hc : c ∈ V.cells)
    (he : w.heap.read? c = some e) : V.Fits w.heap c e := by
  obtain ⟨e', he', hfit⟩ := hw.cell c hc
  obtain rfl : e' = e := Option.some.inj (he'.symm.trans he)
  exact hfit

/-- The cells keep fitting in every extension that leaves them as they are. -/
theorem Holds.extend {w w' : World σ} (hw : V.Holds natives w) (hx : w.heap.Extends w'.heap)
    (hread : ∀ c ∈ V.cells, w'.heap.read? c = w.heap.read? c)
    (hplain : ∀ {id i}, Cell.slot id i ∈ V.cells →
      natives.nearest? w'.types (w'.heap.get id).ty = none) : V.Holds natives w' where
  cell c hc := by
    obtain ⟨e, he, hfit⟩ := hw.cell c hc
    exact ⟨e, (hread c hc).trans he, hfit.extend hx⟩
  direct := hw.direct
  plain := hplain

/-- New scalars leave the cells of a valuation as they are. -/
theorem Holds.grow {w : World σ} (hw : V.Holds natives w) {h' : Heap} (g : w.heap.Grows h') :
    V.Holds natives { w with heap := h' } := by
  refine hw.extend g.extension (fun c _ => g.read? c) fun {id i} hc => ?_
  -- What is beyond the heap has no properties, and the cells do exist.
  have hid : id.index < w.heap.instances.size := by
    refine Nat.lt_of_not_le fun hle => ?_
    obtain ⟨e, he, -⟩ := hw.cell _ hc
    rw [Heap.read?, Heap.get_of_le _ hle] at he
    cases he
  show natives.nearest? w.types (h'.get id).ty = none
  rw [g.extension.ty hid]
  exact hw.plain hc

end Valuation

/-- What a pass over a formula `e` that starts in `s` and ends with `e'` in `s'` guarantees. -/
structure Passed (V : Valuation) (scope : Option ScopeId) (e : Expr) (s : Pass σ) (e' : Expr)
    (s' : Pass σ) : Prop where
  /-- The types stay. -/
  types : s'.world.types = s.world.types
  /-- The host's state stays. -/
  host : s'.world.host = s.world.host
  /-- The heap gets new scalars at most. -/
  grows : s.world.heap.Grows s'.world.heap
  /-- A formula is left. -/
  formula : e'.Formula V s'.world.heap scope
  /-- Its value is the same. -/
  value : e'.valueIn V s'.world.heap scope = e.valueIn V s.world.heap scope
  /-- It reads nothing new. -/
  reads : e'.reads s'.world.heap scope ⊆ e.reads s.world.heap scope
  /-- Reductions are counted up. -/
  mono : s.reductions ≤ s'.reductions
  /-- Each of them takes away from the weight. -/
  count : s'.reductions + e'.weight ≤ s.reductions + e.weight
  /-- Without reductions nothing has changed, and something pending is read if the formula is not
  terminal. -/
  idle : s'.reductions = s.reductions → e' = e ∧ s' = s ∧
    (e.isTerminal = false → ∃ c ∈ e.reads s.world.heap scope, s.world.heap.Pending c)

namespace Passed

variable {V : Valuation} {scope : Option ScopeId} {e e' : Expr} {s s' : Pass σ}

/-- The world after a pass differs in its heap alone. -/
theorem world_eq (hp : Passed V scope e s e' s') :
    s'.world = { s.world with heap := s'.world.heap } := by
  obtain ⟨⟨types, heap, host⟩, n⟩ := s'
  obtain ⟨rfl, rfl, -⟩ := hp
  rfl

/-- The cells fit after a pass as before. -/
theorem holds (hp : Passed V scope e s e' s') (hs : V.Holds natives s.world) :
    V.Holds natives s'.world := by
  rw [hp.world_eq]
  exact hs.grow hp.grows

/-- A formula that stays as it is, because it is terminal or because it waits for a cell. -/
theorem unchanged (hf : e.Formula V s.world.heap scope)
    (hw : e.isTerminal = false → ∃ c ∈ e.reads s.world.heap scope, s.world.heap.Pending c) :
    Passed V scope e s e s where
  types := rfl
  host := rfl
  grows := .refl
  formula := hf
  value := rfl
  reads := fun _ h => h
  mono := Nat.le_refl _
  count := Nat.le_refl _
  idle _ := ⟨rfl, rfl, hw⟩

/-- A formula that is replaced by a lighter one of the same value. -/
theorem replaced (hf : e'.Formula V s.world.heap scope)
    (hv : e'.valueIn V s.world.heap scope = e.valueIn V s.world.heap scope)
    (hr : e'.reads s.world.heap scope ⊆ e.reads s.world.heap scope)
    (hlt : e'.weight < e.weight) :
    Passed V scope e s e' { s with reductions := s.reductions + 1 } where
  types := rfl
  host := rfl
  grows := .refl
  formula := hf
  value := hv
  reads := hr
  mono := Nat.le_succ _
  count := by
    show s.reductions + 1 + e'.weight ≤ s.reductions + e.weight
    omega
  idle h := absurd h (Nat.succ_ne_self _)

/-- Two passes in a row. -/
theorem trans {e₁ e₂ : Expr} {s₁ s₂ : Pass σ} (a : Passed V scope e s e₁ s₁)
    (b : Passed V scope e₁ s₁ e₂ s₂) : Passed V scope e s e₂ s₂ where
  types := b.types.trans a.types
  host := b.host.trans a.host
  grows := a.grows.trans b.grows
  formula := b.formula
  value := b.value.trans a.value
  reads := fun _ hc => a.reads (b.reads hc)
  mono := Nat.le_trans a.mono b.mono
  count :=
    calc s₂.reductions + e₂.weight ≤ s₁.reductions + e₁.weight := b.count
      _ ≤ s.reductions + e.weight := a.count
  idle hred := by
    have ha := a.mono
    have hb := b.mono
    obtain ⟨rfl, rfl, hw⟩ := a.idle (by omega)
    exact b.idle hred

end Passed

/-! ## Steps of a pass -/

namespace Reduction

/-- A name whose binding is not a method becomes the binding once that is terminal. -/
theorem name_apply {scope : Option ScopeId} {n : String} {c : Cell} {bound : Expr} {s : Pass σ}
    (e : Expr) (hc : s.world.heap.nameCell? scope n = some c)
    (hb : s.world.heap.read? c = some bound) (hm : ∀ m, bound ≠ .unbound m) :
    name scope e n s = if bound.isTerminal then become bound s else .ok e s := by
  obtain ⟨found, hl, rfl⟩ := Option.map_eq_some_iff.mp hc
  unfold name
  rw [bind_of_ok (look_apply _ s)]
  simp only [hl]
  rw [bind_of_ok (look_apply _ s)]
  simp only [hb]
  cases bound with
  | unbound m => exact absurd rfl (hm m)
  | _ => rfl

/-- The operators other than `&&` and `||` need both operands. -/
theorem shortCircuit_apply {op : BinaryOp} (ha : op ≠ .and) (ho : op ≠ .or) (lhs : Expr)
    (s : Pass σ) : shortCircuit op lhs s = .ok none s := by
  cases lhs with
  | object id =>
    unfold shortCircuit
    simp only
    rw [bind_of_ok (perform_of_ok (Effect.instanceOf_apply id s.world))]
    generalize (s.world.heap.get id).payload = p
    cases p with
    | scalar v =>
      cases v with
      | bool b =>
        cases op with
        | and => exact absurd rfl ha
        | or => exact absurd rfl ho
        | _ => cases b <;> rfl
      | _ => rfl
    | _ => rfl
  | _ => rfl

/-- A binary operation whose operands are not both instances waits for them. -/
theorem binary_waits {op : BinaryOp} {lhs rhs : Expr} (ty : TypeId) (s : Pass σ)
    (hl : ∀ ty, lhs ≠ .missing ty) (hr : ∀ ty, rhs ≠ .missing ty)
    (hw : ∀ l r, ¬(lhs = .object l ∧ rhs = .object r)) :
    binary natives op lhs rhs ty s = .ok (.binary op lhs rhs ty) s := by
  unfold binary
  split
  case h_1 => exact absurd rfl (hl _)
  case h_2 => exact absurd rfl (hr _)
  case h_3 => exact absurd ⟨rfl, rfl⟩ (hw _ _)
  case h_4 => rfl

/-- What a plugin computes takes the place of the operation, and so does its failure. -/
theorem answer_apply {action : Effect σ (Option Expr)} {result : Except Fault Scalar} (kept : Expr)
    {s : Pass σ} : Computes action s.world result →
      match result with
      | .ok v => (do answerOr kept (← perform action)) s = become (.scalar v) s
      | .error _ => ∃ e s', (do answerOr kept (← perform action)) s = .error e s' := by
  intro h
  cases result with
  | ok v => exact bind_of_ok (perform_of_ok h)
  | error fault =>
    obtain ⟨e, he⟩ := h
    exact ⟨e, _, bind_of_error (perform_of_error he)⟩

/-- A binary operation on two scalars becomes the literal of its result, or fails. -/
theorem binary_apply (hn : natives.HasScalars) (op : BinaryOp) {l r : InstanceId} {a b : Scalar}
    (ty : TypeId) {s : Pass σ} (ha : s.world.heap.IsScalar l a) (hb : s.world.heap.IsScalar r b) :
    match op.onScalars a b with
    | .ok v => binary natives op (.object l) (.object r) ty s = become (.scalar v) s
    | .error _ => ∃ e s', binary natives op (.object l) (.object r) ty s = .error e s' := by
  unfold binary
  simp only
  rw [bind_of_ok (perform_of_ok (Effect.instanceOf_apply l s.world)),
    bind_of_ok (perform_of_ok (Effect.instanceOf_apply r s.world))]
  simp only [ha.ty, hb.ty]
  -- Operands of different types fail on both sides, without asking a plugin.
  by_cases hty : a.ty = b.ty
  · have hplugin : pluginOf natives l s = .ok a.plugin s := by
      rw [pluginOf_apply, ha.ty, hn.pluginFor]
    simp only [hty, ne_eq, not_true_eq_false, if_false]
    rw [bind_of_ok hplugin]
    exact answer_apply (.binary op (.object l) (.object r) ty)
      (operator_binary op ha.payload hb.payload hty)
  · rw [onScalars_of_ty_ne op hty]
    simp only [ne_eq, hty, not_false_eq_true, if_true]
    exact ⟨_, _, rfl⟩

/-- A unary operation whose operand is not an instance waits for it. -/
theorem unary_waits {op : UnaryOp} {operand : Expr} (ty : TypeId) (s : Pass σ)
    (hm : ∀ ty, operand ≠ .missing ty) (hw : ∀ id, operand ≠ .object id) :
    unary natives op operand ty s = .ok (.unary op operand ty) s := by
  unfold unary
  split
  case h_1 => exact absurd rfl (hm _)
  case h_2 => exact absurd rfl (hw _)
  case h_3 => rfl

/-- A unary operation on a scalar becomes the literal of its result, or fails. -/
theorem unary_apply (hn : natives.HasScalars) (op : UnaryOp) {id : InstanceId} {a : Scalar}
    (ty : TypeId) {s : Pass σ} (ha : s.world.heap.IsScalar id a) :
    match op.onScalar a with
    | .ok v => unary natives op (.object id) ty s = become (.scalar v) s
    | .error _ => ∃ e s', unary natives op (.object id) ty s = .error e s' := by
  have hplugin : pluginOf natives id s = .ok a.plugin s := by
    rw [pluginOf_apply, ha.ty, hn.pluginFor]
  unfold unary
  simp only
  rw [bind_of_ok hplugin]
  exact answer_apply (.unary op (.object id) ty) (operator_unary op ha.payload)

/-- A property of a plain object becomes its value once that is terminal. -/
theorem member_apply {id : InstanceId} {n : String} {c : Cell} {bound : Expr} (ty : TypeId)
    {s : Pass σ} (hc : s.world.heap.slotCell? id n = some c)
    (hb : s.world.heap.read? c = some bound)
    (hp : natives.nearest? s.world.types (s.world.heap.get id).ty = none) :
    member natives (.object id) n ty s =
      if bound.isTerminal then become bound s else .ok (.member (.object id) n ty) s := by
  obtain ⟨i, hi, rfl⟩ := Option.map_eq_some_iff.mp hc
  obtain ⟨slot, hslot, rfl⟩ := Option.map_eq_some_iff.mp hb
  have hplugin : pluginOf natives id s = .ok .plainClass s := by
    rw [pluginOf_apply, Natives.pluginFor, hp]
    rfl
  have hfind : (s.world.heap.get id).slot? n = some slot := by
    rw [Instance.slot?, List.find?_eq_bind_findIdx?_getElem?, hi]
    exact hslot
  have hanswer : (Plugin.plainClass.property id n : Effect σ _) s.world =
      .ok (if slot.expr.isTerminal then some slot.expr else none) s.world := by
    show Effect.resolveSlot id n s.world = _
    unfold Effect.resolveSlot
    rw [bind_of_ok (Effect.instanceOf_apply id s.world)]
    simp only [hfind]
    rfl
  unfold member
  simp only
  rw [bind_of_ok hplugin, bind_of_ok (perform_of_ok hanswer)]
  split
  · rfl
  · rfl

/-- When a scope is left behind. -/
theorem leave_apply (inner : ScopeId) (before : ℕ) (body : Expr) (s : Pass σ) :
    leave inner before body s =
      if body.isTerminal || (decide (s.reductions = before) &&
          (s.world.heap.isReduced inner && body.isClosed s.world.types))
      then become body s else .ok (.scoped inner body) s := by
  unfold leave
  rw [bind_of_ok (count_apply s)]
  by_cases hb : s.reductions = before
  · simp only [hb, if_true, decide_true, Bool.true_and]
    rw [bind_of_ok (look_apply _ s)]
    split <;> rfl
  · simp only [hb, if_false, decide_false, Bool.false_and]
    rw [bind_of_ok (pure_apply false s)]
    split <;> rfl

end Reduction

/-! ## The pass -/

section Reduce

variable {V : Valuation} {h : Heap}

/-- A formula is nothing that a pass could take for an absence. -/
theorem Expr.Formula.ne_missing {scope : Option ScopeId} {e : Expr} (hf : e.Formula V h scope)
    (ty : TypeId) : e ≠ .missing ty := by
  rintro rfl
  cases hf

/-- A formula that is an instance is the instance of its value. -/
theorem Expr.Formula.isScalar {scope : Option ScopeId} {id : InstanceId}
    (hf : (Expr.object id).Formula V h scope) : ∃ v, h.IsScalar id v := by
  cases hf with
  | object hv => exact ⟨_, hv⟩

/-- A formula that reads a cell that holds a fitting expression is replaced by it, or waits. -/
theorem ends_read {scope : Option ScopeId} {e bound : Expr} {c : Cell} {s : Pass σ}
    (hf : e.Formula V s.world.heap scope) (hr : e.reads s.world.heap scope = [c])
    (hv : e.valueIn V s.world.heap scope = V.value c) (hw : 0 < e.weight)
    (hb : s.world.heap.read? c = some bound) (hfit : V.Fits s.world.heap c bound)
    {step : Reduction σ Expr}
    (hs : step s = if bound.isTerminal then Reduction.become bound s else .ok e s) :
    Ends step s (Passed V scope e s) fun _ _ => e.valueIn V s.world.heap scope = none := by
  cases ht : bound.isTerminal with
  | true =>
    rw [ht] at hs
    refine Ends.of_ok hs ?_
    obtain ⟨hf', hv', hr'⟩ :=
      hfit.formula.of_isClosed (hfit.formula.closed_of_isTerminal s.world.types ht) scope
    obtain ⟨id, v, rfl, -⟩ := hfit.formula.of_isTerminal ht
    exact .replaced hf' (by rw [hv', hfit.value, hv]) (by rw [hr']; exact List.nil_subset _) hw
  | false =>
    rw [ht] at hs
    refine Ends.of_ok hs (.unchanged hf fun _ => ⟨c, ?_, bound, hb, ht⟩)
    rw [hr]
    exact List.mem_singleton_self c

/-- A name is replaced by what it is bound to, or waits. -/
theorem ends_name {scope : Option ScopeId} {e : Expr} {name : String} {c : Cell} {s : Pass σ}
    (hs : V.Holds natives s.world) (hc : s.world.heap.nameCell? scope name = some c)
    (hm : c ∈ V.cells) (hf : e.Formula V s.world.heap scope)
    (hr : e.reads s.world.heap scope = (s.world.heap.nameCell? scope name).toList)
    (hv : e.valueIn V s.world.heap scope = (s.world.heap.nameCell? scope name).bind V.value)
    (hw : 0 < e.weight) :
    Ends (Reduction.name scope e name) s (Passed V scope e s)
      fun _ _ => e.valueIn V s.world.heap scope = none := by
  obtain ⟨bound, hb, hfit⟩ := hs.cell c hm
  rw [hc] at hr hv
  refine ends_read hf hr hv hw hb hfit (Reduction.name_apply e hc hb ?_)
  rintro m rfl
  cases hfit.formula

/-- A property is replaced by what it holds, or waits. If it is a property of `this`, the object
takes the place of `this` first. -/
theorem ends_member {scope : Option ScopeId} {subject : Expr} {name : String} {c : Cell}
    {s : Pass σ} (ty : TypeId) (hs : V.Holds natives s.world)
    (hc : s.world.heap.memberCell? scope subject name = some c) (hm : c ∈ V.cells) :
    Ends ((Expr.member subject name ty).reduce natives scope) s
      (Passed V scope (.member subject name ty) s)
      fun _ _ => (Expr.member subject name ty).valueIn V s.world.heap scope = none := by
  obtain ⟨bound, hb, hfit⟩ := hs.cell c hm
  obtain ⟨id, hid, hslot⟩ := Option.bind_eq_some_iff.mp hc
  have hplain : natives.nearest? s.world.types (s.world.heap.get id).ty = none := by
    obtain ⟨i, -, rfl⟩ := Option.map_eq_some_iff.mp hslot
    exact hs.plain hm
  have hobject : s.world.heap.memberCell? scope (.object id) name = some c := hslot
  have hread (subject' : Expr) (hc' : s.world.heap.memberCell? scope subject' name = some c) :
      (Expr.member subject' name ty).reads s.world.heap scope = [c] ∧
        (Expr.member subject' name ty).valueIn V s.world.heap scope = V.value c := by
    simp only [Expr.reads, Expr.valueIn, hc', Option.toList_some, Option.bind_some, and_self]
  -- From the object on, the step is the same however many reductions there have been.
  have hmember (n : ℕ) :
      Ends (Reduction.member natives (.object id) name ty) ⟨s.world, n⟩
        (Passed V scope (.member (.object id) name ty) ⟨s.world, n⟩)
        fun _ _ => (Expr.member (.object id) name ty).valueIn V s.world.heap scope = none :=
    ends_read (s := ⟨s.world, n⟩) (.member ty hobject hm) (hread _ hobject).1
      (hread _ hobject).2 (Nat.succ_pos _) hb hfit (Reduction.member_apply ty hslot hb hplain)
  cases subject with
  | object id' =>
    obtain rfl : id' = id := Option.some.inj hid
    exact Ends.bind (Ends.of_ok rfl (hmember s.reductions))
  | this ty' =>
    have hthis : (Expr.this ty').reduce natives scope s =
        .ok (.object id) { s with reductions := s.reductions + 1 } := by
      show Reduction.this scope s = _
      unfold Reduction.this
      rw [bind_of_ok (Reduction.look_apply _ s)]
      change scope.bind s.world.heap.receiver? = some id at hid
      simp only [hid]
      rfl
    have hfirst : Passed V scope (.member (.this ty') name ty) s (.member (.object id) name ty)
        { s with reductions := s.reductions + 1 } :=
      .replaced (.member ty hobject hm) ((hread _ hobject).2.trans (hread _ hc).2.symm)
        (by rw [(hread _ hobject).1, (hread _ hc).1]; exact List.Subset.refl _)
        (Nat.lt_succ_self _)
    refine Ends.bind (Ends.of_ok hthis ((hmember (s.reductions + 1)).mono ?_ ?_))
    · exact fun e' s' hp => hfirst.trans hp
    · exact fun _ _ hv => hfirst.value.symm.trans hv
  | _ => cases hid

/-- A scope around a formula is left behind or stays. Either way the formula keeps its value. -/
theorem ends_leave {scope : Option ScopeId} {inner : ScopeId} {body body' : Expr}
    {s s' : Pass σ} (hp : Passed V (some inner) body s body' s') :
    Ends (Reduction.leave inner s.reductions body') s' (Passed V scope (.scoped inner body) s)
      fun _ _ => False := by
  have hmono := hp.mono
  have hcount := hp.count
  have hstep := Reduction.leave_apply inner s.reductions body' s'
  split at hstep
  case isTrue hleft =>
    -- Either way out of the scope needs a body that has nothing left to look up in it.
    have hclosed : body'.isClosed s'.world.types = true := by
      rcases Bool.or_eq_true_iff.mp hleft with ht | hc
      · exact hp.formula.closed_of_isTerminal _ ht
      · simp only [Bool.and_eq_true] at hc
        exact hc.2.2
    obtain ⟨hf, hv, hr⟩ := hp.formula.of_isClosed hclosed scope
    refine Ends.of_ok hstep ⟨hp.types, hp.host, hp.grows, hf, hv.trans hp.value, ?_, ?_, ?_, ?_⟩
    · show body'.reads s'.world.heap scope ⊆ body.reads s.world.heap (some inner)
      rw [hr]
      exact hp.reads
    · exact Nat.le_succ_of_le hmono
    · show s'.reductions + 1 + body'.weight ≤ s.reductions + (body.weight + 1)
      omega
    · intro hred
      change s'.reductions + 1 = s.reductions at hred
      omega
  case isFalse hstays =>
    refine Ends.of_ok hstep
      ⟨hp.types, hp.host, hp.grows, .within hp.formula, hp.value, hp.reads, hmono, ?_, ?_⟩
    · show s'.reductions + (body'.weight + 1) ≤ s.reductions + (body.weight + 1)
      omega
    · intro hred
      obtain ⟨rfl, rfl, hw⟩ := hp.idle hred
      refine ⟨rfl, rfl, fun _ => hw ?_⟩
      rw [Bool.or_eq_true, not_or] at hstays
      exact Bool.eq_false_iff.mpr hstays.1

/-- A unary operation after a pass over its operand. -/
theorem ends_unary (hn : natives.HasScalars) {scope : Option ScopeId} {op : UnaryOp}
    {operand operand' : Expr} (ty : TypeId) (ht : op ≠ .typeOf) {s s' : Pass σ}
    (hp : Passed V scope operand s operand' s') :
    Ends (Reduction.unary natives op operand' ty) s' (Passed V scope (.unary op operand ty) s)
      fun _ _ => (Expr.unary op operand ty).valueIn V s.world.heap scope = none := by
  have hmono := hp.mono
  have hcount := hp.count
  -- The operator is applied as soon as the operand is an instance. Until then the operation waits
  -- for what the operand waits for.
  by_cases hobj : ∃ id, operand' = .object id
  · obtain ⟨id, rfl⟩ := hobj
    obtain ⟨a, ha⟩ := hp.formula.isScalar
    have hval : (Expr.unary op operand ty).valueIn V s.world.heap scope =
        (op.onScalar a).toOption := by
      simp only [Expr.valueIn, ← hp.value, ha.scalar?, Option.bind_eq_bind, Option.bind_some]
    have hstep := Reduction.unary_apply hn op ty ha
    cases hv : op.onScalar a with
    | ok v =>
      rw [hv] at hstep hval
      refine Ends.of_ok hstep ⟨hp.types, hp.host, hp.grows, .scalar v, hval.symm, ?_, ?_, ?_, ?_⟩
      · exact List.nil_subset _
      · exact Nat.le_succ_of_le hmono
      · show s'.reductions + 1 + 1 ≤ s.reductions + (operand.weight + 2)
        omega
      · intro hred
        change s'.reductions + 1 = s.reductions at hred
        omega
    | error fault =>
      rw [hv] at hstep hval
      obtain ⟨e, s'', hstep⟩ := hstep
      exact Ends.of_error hstep hval
  · have hstep : Reduction.unary natives op operand' ty s' = .ok (.unary op operand' ty) s' :=
      Reduction.unary_waits ty s' hp.formula.ne_missing fun id h => hobj ⟨id, h⟩
    refine Ends.of_ok hstep
      ⟨hp.types, hp.host, hp.grows, .unary ty ht hp.formula, ?_, hp.reads, hmono, ?_, ?_⟩
    · simp only [Expr.valueIn, hp.value]
    · show s'.reductions + (operand'.weight + 2) ≤ s.reductions + (operand.weight + 2)
      omega
    · intro hred
      obtain ⟨rfl, rfl, hw⟩ := hp.idle hred
      refine ⟨rfl, rfl, fun _ => hw (Bool.eq_false_iff.mpr fun hterm => hobj ?_)⟩
      obtain ⟨id, v, rfl, -⟩ := hp.formula.of_isTerminal hterm
      exact ⟨id, rfl⟩

/-- A binary operation after passes over its operands. -/
theorem ends_binary (hn : natives.HasScalars) {scope : Option ScopeId} {op : BinaryOp}
    {lhs lhs' rhs rhs' : Expr} (ty : TypeId) (ha : op ≠ .and) (ho : op ≠ .or)
    {s s₁ s₂ : Pass σ} (hr : rhs.Formula V s.world.heap scope)
    (hl : Passed V scope lhs s lhs' s₁) (hp : Passed V scope rhs s₁ rhs' s₂) :
    Ends (Reduction.binary natives op lhs' rhs' ty) s₂
      (Passed V scope (.binary op lhs rhs ty) s)
      fun _ _ => (Expr.binary op lhs rhs ty).valueIn V s.world.heap scope = none := by
  have hmono₁ := hl.mono
  have hmono₂ := hp.mono
  have hcount₁ := hl.count
  have hcount₂ := hp.count
  -- The pass over the right operand adds scalars at most, so what is known of the left one stays.
  have hl' := hl.formula.extend hp.grows.extension
  have hvl : lhs'.valueIn V s₂.world.heap scope = lhs.valueIn V s.world.heap scope :=
    calc lhs'.valueIn V s₂.world.heap scope
        = lhs'.valueIn V s₁.world.heap scope := hl.formula.valueIn_extend hp.grows.extension
      _ = lhs.valueIn V s.world.heap scope := hl.value
  have hvr : rhs'.valueIn V s₂.world.heap scope = rhs.valueIn V s.world.heap scope :=
    calc rhs'.valueIn V s₂.world.heap scope
        = rhs.valueIn V s₁.world.heap scope := hp.value
      _ = rhs.valueIn V s.world.heap scope := hr.valueIn_extend hl.grows.extension
  have hreads : (Expr.binary op lhs' rhs' ty).reads s₂.world.heap scope ⊆
      (Expr.binary op lhs rhs ty).reads s.world.heap scope := by
    simp only [Expr.reads, hl.formula.reads_extend hp.grows.extension]
    refine List.append_subset.mpr ⟨fun c hc => ?_, fun c hc => ?_⟩
    · exact List.mem_append_left _ (hl.reads hc)
    · have hc' := hp.reads hc
      rw [hr.reads_extend hl.grows.extension] at hc'
      exact List.mem_append_right _ hc'
  have htypes := hp.types.trans hl.types
  have hhost := hp.host.trans hl.host
  have hgrows := hl.grows.trans hp.grows
  by_cases hobj : ∃ l r, lhs' = .object l ∧ rhs' = .object r
  · obtain ⟨l, r, rfl, rfl⟩ := hobj
    obtain ⟨a, hsa⟩ := hl'.isScalar
    obtain ⟨b, hsb⟩ := hp.formula.isScalar
    have hval : (Expr.binary op lhs rhs ty).valueIn V s.world.heap scope =
        (op.onScalars a b).toOption := by
      simp only [Expr.valueIn, ← hvl, ← hvr, hsa.scalar?, hsb.scalar?, Option.bind_eq_bind,
        Option.bind_some]
    have hstep := Reduction.binary_apply hn op ty hsa hsb
    cases hv : op.onScalars a b with
    | ok v =>
      rw [hv] at hstep hval
      refine Ends.of_ok hstep ⟨htypes, hhost, hgrows, .scalar v, hval.symm, ?_, ?_, ?_, ?_⟩
      · exact List.nil_subset _
      · show s.reductions ≤ s₂.reductions + 1
        omega
      · show s₂.reductions + 1 + 1 ≤ s.reductions + (lhs.weight + rhs.weight + 2)
        change s₁.reductions + 0 ≤ _ at hcount₁
        change s₂.reductions + 0 ≤ _ at hcount₂
        omega
      · intro hred
        change s₂.reductions + 1 = s.reductions at hred
        omega
    | error fault =>
      rw [hv] at hstep hval
      obtain ⟨e, s'', hstep⟩ := hstep
      exact Ends.of_error hstep hval
  · have hstep : Reduction.binary natives op lhs' rhs' ty s₂ = .ok (.binary op lhs' rhs' ty) s₂ :=
      Reduction.binary_waits ty s₂ hl'.ne_missing hp.formula.ne_missing
        fun l r h => hobj ⟨l, r, h⟩
    refine Ends.of_ok hstep ⟨htypes, hhost, hgrows, .binary ty ha ho hl' hp.formula, ?_, hreads,
      Nat.le_trans hmono₁ hmono₂, ?_, ?_⟩
    · simp only [Expr.valueIn, hvl, hvr]
    · show s₂.reductions + (lhs'.weight + rhs'.weight + 2) ≤
        s.reductions + (lhs.weight + rhs.weight + 2)
      omega
    · intro hred
      obtain ⟨rfl, rfl, hwr⟩ := hp.idle (by omega)
      obtain ⟨rfl, rfl, hwl⟩ := hl.idle hred
      refine ⟨rfl, rfl, fun _ => ?_⟩
      -- One of the operands is not terminal, and that one waits for a cell.
      by_cases htl : lhs'.isTerminal = true
      · have htr : rhs'.isTerminal = false := by
          refine Bool.eq_false_iff.mpr fun htr => hobj ?_
          obtain ⟨l, -, rfl, -⟩ := hl'.of_isTerminal htl
          obtain ⟨r, -, rfl, -⟩ := hp.formula.of_isTerminal htr
          exact ⟨l, r, rfl, rfl⟩
        obtain ⟨c, hc, hpend⟩ := hwr htr
        exact ⟨c, List.mem_append_right _ hc, hpend⟩
      · obtain ⟨c, hc, hpend⟩ := hwl (Bool.eq_false_iff.mpr htl)
        exact ⟨c, List.mem_append_left _ hc, hpend⟩

/-- **A pass over a formula keeps its value.** If it fails, there is no value. -/
theorem Expr.Formula.reduce (hn : natives.HasScalars) {scope : Option ScopeId} {e : Expr}
    (hf : e.Formula V h scope) (s : Pass σ) (hs : V.Holds natives s.world)
    (hx : h.Extends s.world.heap) :
    Ends (e.reduce natives scope) s (Passed V scope e s)
      fun _ _ => e.valueIn V s.world.heap scope = none := by
  -- The induction is on the formula. A step of the pass is a lemma of its own for each form.
  induction hf generalizing s with
  | scalar v =>
    refine Ends.of_ok rfl
      ⟨rfl, rfl, .scalar v .refl, .object (.of_alloc v), ?_, ?_, ?_, ?_, ?_⟩
    · exact (Heap.IsScalar.of_alloc v).scalar?
    · exact List.nil_subset _
    · exact Nat.le_succ _
    · exact Nat.le_refl _
    · exact fun hred => absurd hred (Nat.succ_ne_self _)
  | object hv => exact .of_ok rfl (.unchanged (.object (hv.extend hx)) nofun)
  | @param scope name c ty hc hm =>
    have hc' := hx.nameCell? hc
    exact ends_name hs hc' hm (.param ty hc' hm) rfl rfl Nat.one_pos
  | @localVar scope name c ty hc hm =>
    have hc' := hx.nameCell? hc
    exact ends_name hs hc' hm (.localVar ty hc' hm) rfl rfl Nat.one_pos
  | @member scope subject name c ty hc hm => exact ends_member ty hs (hx.memberCell? hc) hm
  | @binary scope op lhs rhs ty ha ho hl hr ihl ihr =>
    refine Ends.bind ((ihl s hs hx).mono ?_ ?_)
    · intro lhs' s₁ hl'
      refine Ends.bind (Ends.of_ok (Reduction.shortCircuit_apply ha ho lhs' s₁) ?_)
      refine Ends.bind ((ihr s₁ (hl'.holds hs) (hx.trans hl'.grows.extension)).mono ?_ ?_)
      · exact fun rhs' s₂ hr' => ends_binary hn ty ha ho (hr.extend hx) hl' hr'
      · intro _ _ hv
        rw [(hr.extend hx).valueIn_extend hl'.grows.extension] at hv
        simp only [Expr.valueIn, hv, Option.bind_eq_bind, Option.bind_none, Option.bind_fun_none]
    · intro _ _ hv
      simp only [Expr.valueIn, hv, Option.bind_eq_bind, Option.bind_none]
  | @unary scope op operand ty ht _ ih =>
    have hred : (Expr.unary op operand ty).reduce natives scope =
        (do Reduction.unary natives op (← operand.reduce natives scope) ty) := by
      cases op with
      | typeOf => exact absurd rfl ht
      | _ => rfl
    rw [hred]
    refine Ends.bind ((ih s hs hx).mono ?_ ?_)
    · exact fun operand' s' hp => ends_unary hn ty ht hp
    · intro _ _ hv
      simp only [Expr.valueIn, hv, Option.bind_eq_bind, Option.bind_none]
  | within _ ih =>
    refine Ends.bind (Ends.of_ok rfl (Ends.bind ((ih s hs hx).mono ?_ ?_)))
    · exact fun body' s' hp => (ends_leave hp).mono (fun _ _ h => h) (fun _ _ h => h.elim)
    · exact fun _ _ hv => hv

end Reduce

end ObjectGraph
