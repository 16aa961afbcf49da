import ObjectGraph.Plugin.Builtin
import ObjectGraph.Proofs.Formula.Pass
import ObjectGraph.Proofs.ObjectJson

/-!
# What short-circuit operators skip

A pass over `&&` or `||` looks at the left operand as this very pass leaves it. If it is the instance
of the deciding truth value, the right operand is skipped. In all other cases the right operand
takes its own pass, also if the left one is on its way to the deciding value, and an error in it is
an error of the whole operation. So the right operand is skipped whatever it is exactly if the first
pass over the left one decides (`comesTo_iff_decides`).
-/

namespace ObjectGraph

variable {σ : Type} {natives : Natives σ} {changes : World σ → World σ → Prop}
  {scope : Option ScopeId} {op : BinaryOp} {b : Bool} {lhs : Expr}

/-- The truth value that decides a logical operator if the left operand has it. -/
def BinaryOp.decidedBy? : BinaryOp → Option Bool
  | .and => some false
  | .or => some true
  | _ => none

/-- Passes over an expression come to the instance of a truth value. Between one pass and the next
the world may change. -/
inductive ComesTo (natives : Natives σ) (changes : World σ → World σ → Prop)
    (scope : Option ScopeId) (b : Bool) : Expr → World σ → Prop where
  /-- It has been reached. -/
  | reached {id w} : w.heap.scalar? id = some (.bool b) →
    ComesTo natives changes scope b (.object id) w
  /-- It is reached after one more pass. -/
  | pass {e e' n w w'} : Effect.pass natives scope e w = .ok (e', n) w' →
    (∀ w'', changes w' w'' → ComesTo natives changes scope b e' w'') →
    ComesTo natives changes scope b e w

/-- The first pass over an expression leaves the instance of a truth value. -/
def Decides (natives : Natives σ) (scope : Option ScopeId) (b : Bool) (e : Expr) (w : World σ) :
    Prop :=
  ∃ id n w', Effect.pass natives scope e w = .ok (.object id, n) w' ∧
    w'.heap.scalar? id = some (.bool b)

/-- The scalar of an instance stays in every extension. -/
theorem Heap.Extends.scalar? {h h' : Heap} (hx : h.Extends h') {id : InstanceId} {v : Scalar}
    (hv : h.scalar? id = some v) : h'.scalar? id = some v := by
  have hid : id.index < h.instances.size := by
    refine Nat.lt_of_not_le fun hle => ?_
    rw [Heap.scalar?, Heap.get_of_le h hle] at hv
    cases hv
  rw [Heap.scalar?, hx.payload hid]
  exact hv

namespace Reduction

/-- A left operand decides if it is the instance of the deciding truth value. -/
theorem shortCircuit_decided (hop : op.decidedBy? = some b) {id : InstanceId} {s : Pass σ}
    (hid : s.world.heap.scalar? id = some (.bool b)) :
    shortCircuit op (.object id) s = .ok (some b) s := by
  unfold shortCircuit
  simp only
  rw [bind_of_ok (perform_of_ok (Effect.instanceOf_apply id s.world))]
  unfold Heap.scalar? at hid
  cases hp : (s.world.heap.get id).payload with
  | scalar v =>
    rw [hp] at hid
    obtain rfl : v = .bool b := Option.some.inj hid
    cases op <;> cases hop <;> rfl
  | _ => rw [hp] at hid; cases hid

/-- A left operand that is anything else does not decide. -/
theorem shortCircuit_undecided (hop : op.decidedBy? = some b) {s : Pass σ}
    (hne : ∀ id, lhs = .object id → s.world.heap.scalar? id ≠ some (.bool b)) :
    shortCircuit op lhs s = .ok none s := by
  cases lhs with
  | object id =>
    have hne := hne id rfl
    unfold shortCircuit
    simp only
    rw [bind_of_ok (perform_of_ok (Effect.instanceOf_apply id s.world))]
    unfold Heap.scalar? at hne
    generalize (s.world.heap.get id).payload = p at hne
    cases p with
    | scalar v =>
      cases v with
      | bool c => cases op <;> cases hop <;> cases c <;> first | rfl | exact absurd rfl hne
      | _ => cases op <;> cases hop <;> rfl
    | _ => cases op <;> cases hop <;> rfl
  | _ => rfl

end Reduction

/-- A division by zero, which no pass gets over. -/
def Expr.dividing : Expr := .binary .div (.int 1) (.int 0) .int

/-- A pass over a division by zero fails. -/
theorem Expr.dividing_reduce (hn : natives.HasScalars) (s : Pass σ) :
    ∃ e s', Expr.dividing.reduce natives scope s = .error e s' := by
  -- Both operands become instances in the pass, and then the division is tried.
  let h₁ := (s.world.heap.allocInstance (.ofPayload .int (.scalar (.int 1)))).2
  let h₂ := (h₁.allocInstance (.ofPayload .int (.scalar (.int 0)))).2
  have hleft : h₂.IsScalar ⟨s.world.heap.instances.size⟩ (.int 1) :=
    (Heap.IsScalar.of_alloc (.int 1)).extend (Heap.extends_allocInstance _ _)
  obtain ⟨e, s', hfail⟩ := Reduction.binary_apply hn .div .int
    (s := ⟨{ s.world with heap := h₂ }, s.reductions + 1 + 1⟩) hleft (.of_alloc (.int 0))
  have hone : (Expr.int 1).reduce natives scope s =
      .ok (.object ⟨s.world.heap.instances.size⟩)
        ⟨{ s.world with heap := h₁ }, s.reductions + 1⟩ := rfl
  have hzero : (Expr.int 0).reduce natives scope ⟨{ s.world with heap := h₁ }, s.reductions + 1⟩ =
      .ok (.object ⟨h₁.instances.size⟩)
        ⟨{ s.world with heap := h₂ }, s.reductions + 1 + 1⟩ := rfl
  have hand : BinaryOp.div ≠ .and := nofun
  have hor : BinaryOp.div ≠ .or := nofun
  exact ⟨e, s', (bind_of_ok hone).trans ((bind_of_ok (Reduction.shortCircuit_apply hand hor _ _)).trans
    ((bind_of_ok hzero).trans hfail))⟩

/-- A pass over a logical operation whose left operand decides is the pass over the left operand,
and the operation becomes the literal of the deciding value. -/
theorem Effect.pass_of_decides (hop : op.decidedBy? = some b) {w : World σ} (rhs : Expr)
    (ty : TypeId) (hl : Decides natives scope b lhs w) :
    ∃ n w', Effect.pass natives scope (.binary op lhs rhs ty) w = .ok (.bool b, n) w' := by
  obtain ⟨id, n, w', hpass, hid⟩ := hl
  unfold Effect.pass at hpass
  cases hred : lhs.reduce natives scope ⟨w, 0⟩ with
  | error e s => rw [hred] at hpass; cases hpass
  | ok lhs' s =>
    rw [hred] at hpass
    cases hpass
    have hnode : (Expr.binary op lhs rhs ty).reduce natives scope ⟨w, 0⟩ =
        .ok (.bool b) { s with reductions := s.reductions + 1 } :=
      (bind_of_ok hred).trans (bind_of_ok (Reduction.shortCircuit_decided hop hid))
    exact ⟨_, _, by unfold Effect.pass; rw [hnode]⟩

/-- If the left operand does not decide, a pass over the operation takes one over the right operand,
and fails if that does. -/
theorem Effect.decides_of_pass (hop : op.decidedBy? = some b) {w w' : World σ} {rhs e : Expr}
    {ty : TypeId} {n : ℕ} (hfails : ∀ s, ∃ e s', rhs.reduce natives scope s = .error e s')
    (hpass : Effect.pass natives scope (.binary op lhs rhs ty) w = .ok (e, n) w') :
    Decides natives scope b lhs w := by
  unfold Effect.pass at hpass
  cases hred : lhs.reduce natives scope ⟨w, 0⟩ with
  | error e s =>
    have hnode : (Expr.binary op lhs rhs ty).reduce natives scope ⟨w, 0⟩ = .error e s :=
      bind_of_error hred
    rw [hnode] at hpass
    cases hpass
  | ok lhs' s =>
    by_cases hdecided : ∃ id, lhs' = .object id ∧ s.world.heap.scalar? id = some (.bool b)
    · obtain ⟨id, rfl, hid⟩ := hdecided
      exact ⟨id, s.reductions, s.world, by unfold Effect.pass; rw [hred], hid⟩
    · have hundecided := Reduction.shortCircuit_undecided hop (s := s)
        fun id hlhs hid => hdecided ⟨id, hlhs, hid⟩
      obtain ⟨err, s', hfail⟩ := hfails s
      have hnode : (Expr.binary op lhs rhs ty).reduce natives scope ⟨w, 0⟩ = .error err s' :=
        (bind_of_ok hred).trans ((bind_of_ok hundecided).trans (bind_of_error hfail))
      rw [hnode] at hpass
      cases hpass

/-- A literal comes to the instance of its value. -/
theorem ComesTo.literal (hchanges : ∀ w w', changes w w' → w.heap.Extends w'.heap) (w : World σ) :
    ComesTo natives changes scope b (.bool b) w :=
  .pass (n := 1) rfl fun _ hw =>
    .reached ((hchanges _ _ hw).scalar? (Heap.IsScalar.of_alloc (.bool b)).scalar?)

/-- **The right operand is skipped**, whatever it is, exactly if the first pass over the left
operand decides. Between the passes the heap may be extended in any way. -/
theorem comesTo_iff_decides (hn : natives.HasScalars)
    (hchanges : ∀ w w', changes w w' → w.heap.Extends w'.heap) (hop : op.decidedBy? = some b)
    (w : World σ) :
    (∀ rhs ty, ComesTo natives changes scope b (.binary op lhs rhs ty) w) ↔
      Decides natives scope b lhs w := by
  constructor
  · intro hall
    -- An operation that skips every right operand skips one that fails in each pass.
    cases hall .dividing .bool with
    | pass hpass _ => exact Effect.decides_of_pass hop (Expr.dividing_reduce hn) hpass
  · intro hl rhs ty
    obtain ⟨n, w', hpass⟩ := Effect.pass_of_decides hop rhs ty hl
    exact .pass hpass fun w'' _ => .literal hchanges w''

/-- A literal decides, and an unknown name on its right is skipped. -/
theorem comesTo_of_literal :
    ComesTo (Natives.builtin : Natives Unit) Eq none false
      (.binary .and (.bool false) (.variable "nowhere" .bool) .bool) (World.ofTypes .initial ()) :=
  (comesTo_iff_decides Natives.builtin_hasScalars (fun _ _ h => h ▸ .refl) rfl _).mpr
    ⟨⟨0⟩, 1, _, rfl, rfl⟩ _ _

/-- A class with a property whose left operand takes more than one pass to be false, and whose right
operand is an unknown name. -/
def lateFalse : ClassBody where
  properties := [⟨"a", .visible, .bool,
    some (.binary .and (.binary .eq (.int 1) (.int 2) .bool) (.variable "nowhere" .bool) .bool)⟩]

/-- A left operand that comes to false, but not in its first pass, does not keep an error in the
right operand from ending the evaluation. -/
theorem lateFalse_fails :
    ComesTo (Natives.builtin : Natives Unit) Eq none false (.binary .eq (.int 1) (.int 2) .bool)
        (World.ofTypes .initial ()) ∧
      evaluated (Natives.builtin : Natives Unit) {} (.ofClass lateFalse) .main [] () =
        .error (.unknownBinding "nowhere") := by
  have hpass : Effect.pass Natives.builtin none (.binary .eq (.int 1) (.int 2) .bool)
      (World.ofTypes .initial ()) = .ok (.bool false, 3) _ := rfl
  refine ⟨.pass hpass fun w _ => ?_, eq_error_of_failedWith (by decide +kernel)⟩
  exact .literal (fun _ _ h => h ▸ .refl) w

end ObjectGraph
