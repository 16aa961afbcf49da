import ObjectGraph.Run.Evaluator

/-!
# Outcomes of steps

A step of evaluation ends with a value or with an error, and in a state either way. `Ends` says
what holds of the two outcomes, and `Ends.bind` is the one rule by which proofs take a sequence of
steps apart. The other lemmas compute the steps that cannot fail.
-/

namespace ObjectGraph

section Steps

variable {ε τ α β : Type}

/-- A step that is taken in `s` ends with a value and a state for which `yields` holds, or with an
error and a state for which `fails` holds. -/
def Ends (step : EStateM ε τ α) (s : τ) (yields : α → τ → Prop) (fails : ε → τ → Prop) : Prop :=
  match step s with
  | .ok a s' => yields a s'
  | .error e s' => fails e s'

/-- What is said of the outcomes of a step can be decided by taking it. -/
instance Ends.instDecidable {step : EStateM ε τ α} {s : τ} {yields : α → τ → Prop}
    {fails : ε → τ → Prop} [∀ a s', Decidable (yields a s')] [∀ e s', Decidable (fails e s')] :
    Decidable (Ends step s yields fails) :=
  match h : step s with
  | .ok a s' => decidable_of_iff (yields a s') (by unfold Ends; rw [h])
  | .error e s' => decidable_of_iff (fails e s') (by unfold Ends; rw [h])

/-- A sequence of two steps is the second step in the state in which the first one ends. -/
theorem bind_apply (step : EStateM ε τ α) (next : α → EStateM ε τ β) (s : τ) :
    (step >>= next) s = match step s with
      | .ok a s' => next a s'
      | .error e s' => .error e s' :=
  rfl

/-- What follows a step that ends with a value starts from its value and state. -/
theorem bind_of_ok {step : EStateM ε τ α} {next : α → EStateM ε τ β} {s s' : τ} {a : α}
    (h : step s = .ok a s') : (step >>= next) s = next a s' := by
  rw [bind_apply, h]

/-- What follows a step that fails is not taken. -/
theorem bind_of_error {step : EStateM ε τ α} {next : α → EStateM ε τ β} {s s' : τ} {e : ε}
    (h : step s = .error e s') : (step >>= next) s = .error e s' := by
  rw [bind_apply, h]

/-- A sequence that ends with a value has a first step that does. -/
theorem exists_of_bind_ok {step : EStateM ε τ α} {next : α → EStateM ε τ β} {s s' : τ} {b : β}
    (h : (step >>= next) s = .ok b s') :
    ∃ a s₁, step s = .ok a s₁ ∧ next a s₁ = .ok b s' := by
  rw [bind_apply] at h
  cases hs : step s with
  | ok a s₁ => rw [hs] at h; exact ⟨a, s₁, rfl, h⟩
  | error e s₁ => rw [hs] at h; cases h

/-- A pure step ends at once. -/
theorem pure_apply (a : α) (s : τ) : (pure a : EStateM ε τ α) s = .ok a s := rfl

/-- The rule for sequences: what the first step ends with is where the second one starts. -/
theorem Ends.bind {step : EStateM ε τ α} {next : α → EStateM ε τ β} {s : τ}
    {yields : β → τ → Prop} {fails : ε → τ → Prop}
    (h : Ends step s (fun a s' => Ends (next a) s' yields fails) fails) :
    Ends (step >>= next) s yields fails := by
  unfold Ends at h ⊢
  rw [bind_apply]
  cases hs : step s with
  | ok a s' => rw [hs] at h; exact h
  | error e s' => rw [hs] at h; exact h

/-- What is said of the outcomes can be weakened. -/
theorem Ends.mono {step : EStateM ε τ α} {s : τ} {yields yields' : α → τ → Prop}
    {fails fails' : ε → τ → Prop} (h : Ends step s yields fails)
    (hy : ∀ a s', yields a s' → yields' a s') (hf : ∀ e s', fails e s' → fails' e s') :
    Ends step s yields' fails' := by
  unfold Ends at h ⊢
  cases hs : step s with
  | ok a s' => rw [hs] at h; exact hy a s' h
  | error e s' => rw [hs] at h; exact hf e s' h

/-- What is said of the outcomes can be put together. -/
theorem Ends.and {step : EStateM ε τ α} {s : τ} {yields yields' : α → τ → Prop}
    {fails fails' : ε → τ → Prop} (h : Ends step s yields fails) (h' : Ends step s yields' fails') :
    Ends step s (fun a s' => yields a s' ∧ yields' a s') fun e s' => fails e s' ∧ fails' e s' := by
  unfold Ends at h h' ⊢
  cases hs : step s with
  | ok a s' => rw [hs] at h h'; exact ⟨h, h'⟩
  | error e s' => rw [hs] at h h'; exact ⟨h, h'⟩

/-- A step with a known value. -/
theorem Ends.of_ok {step : EStateM ε τ α} {s s' : τ} {a : α} {yields : α → τ → Prop}
    {fails : ε → τ → Prop} (h : step s = .ok a s') (hy : yields a s') :
    Ends step s yields fails := by
  unfold Ends
  rw [h]
  exact hy

/-- A step with a known error. -/
theorem Ends.of_error {step : EStateM ε τ α} {s s' : τ} {e : ε} {yields : α → τ → Prop}
    {fails : ε → τ → Prop} (h : step s = .error e s') (hf : fails e s') :
    Ends step s yields fails := by
  unfold Ends
  rw [h]
  exact hf

/-- What holds of the value that a step ends with. -/
theorem Ends.ok {step : EStateM ε τ α} {s s' : τ} {a : α} {yields : α → τ → Prop}
    {fails : ε → τ → Prop} (h : Ends step s yields fails) (hs : step s = .ok a s') :
    yields a s' := by
  unfold Ends at h
  rw [hs] at h
  exact h

/-- What holds of the error that a step ends with. -/
theorem Ends.error {step : EStateM ε τ α} {s s' : τ} {e : ε} {yields : α → τ → Prop}
    {fails : ε → τ → Prop} (h : Ends step s yields fails) (hs : step s = .error e s') :
    fails e s' := by
  unfold Ends at h
  rw [hs] at h
  exact h

/-- Only the outcome of the step matters. -/
theorem Ends.congr {step step' : EStateM ε τ α} {s : τ} {yields : α → τ → Prop}
    {fails : ε → τ → Prop} (h : Ends step s yields fails) (hs : step' s = step s) :
    Ends step' s yields fails := by
  unfold Ends at h ⊢
  rw [hs]
  exact h

/-- What holds of the value of a step holds of the value that it has been computed to be. -/
theorem Ends.and_eq {step : EStateM ε τ α} {s : τ} {yields : α → τ → Prop}
    {fails : ε → τ → Prop} (h : Ends step s yields fails) :
    Ends step s (fun a s' => step s = .ok a s' ∧ yields a s') fails := by
  unfold Ends at h ⊢
  cases hs : step s with
  | ok a s' => rw [hs] at h; exact ⟨rfl, h⟩
  | error e s' => rw [hs] at h; exact h

/-- A step that has no way to fail ends with a value. -/
theorem Ends.exists_ok {step : EStateM ε τ α} {s : τ} {yields : α → τ → Prop}
    (h : Ends step s yields fun _ _ => False) : ∃ a s', step s = .ok a s' ∧ yields a s' := by
  unfold Ends at h
  cases hs : step s with
  | ok a s' => rw [hs] at h; exact ⟨a, s', rfl, h⟩
  | error e s' => rw [hs] at h; exact h.elim

/-- A step that ends with no value fails. -/
theorem Ends.exists_error {step : EStateM ε τ α} {s : τ} {fails : ε → τ → Prop}
    (h : Ends step s (fun _ _ => False) fails) : ∃ e s', step s = .error e s' ∧ fails e s' := by
  unfold Ends at h
  cases hs : step s with
  | ok a s' => rw [hs] at h; exact h.elim
  | error e s' => rw [hs] at h; exact ⟨e, s', rfl, h⟩

/-- A step that never ends with a value fails. -/
theorem exists_error_of_ne_ok {step : EStateM ε τ α} {s : τ} (h : ∀ a s', step s ≠ .ok a s') :
    ∃ e s', step s = .error e s' := by
  cases hs : step s with
  | ok a s' => exact absurd hs (h a s')
  | error e s' => exact ⟨e, s', rfl⟩

end Steps

variable {σ α : Type}

/-- The world that a step leaves, whether it fails or not. -/
def Effect.after (step : Effect σ α) (w : World σ) : World σ :=
  match step w with
  | .ok _ w' => w'
  | .error _ w' => w'

/-- After a step that succeeds there is the world that it leads to. -/
theorem Effect.after_of_ok {step : Effect σ α} {w w' : World σ} {a : α} (h : step w = .ok a w') :
    step.after w = w' := by
  rw [Effect.after, h]

/-- After a step that fails there is the world that it fails in. -/
theorem Effect.after_of_error {step : Effect σ α} {w w' : World σ} {e : EvalError}
    (h : step w = .error e w') : step.after w = w' := by
  rw [Effect.after, h]

/-- What holds at either end of a step holds after it. -/
theorem Ends.after {step : Effect σ α} {w : World σ} {P : World σ → Prop}
    (h : Ends step w (fun _ w' => P w') fun _ w' => P w') : P (step.after w) := by
  unfold Ends at h
  unfold Effect.after
  cases hs : step w with
  | ok a w' => rw [hs] at h; exact h
  | error e w' => rw [hs] at h; exact h

namespace Effect

@[simp] theorem read_apply (f : World σ → α) (w : World σ) : read f w = .ok (f w) w := rfl

@[simp] theorem instanceOf_apply (id : InstanceId) (w : World σ) :
    instanceOf id w = .ok (w.heap.get id) w :=
  rfl

@[simp] theorem pluginFor_apply (natives : Natives σ) (ty : TypeId) (w : World σ) :
    pluginFor natives ty w = .ok (natives.pluginFor w.types ty) w :=
  rfl

@[simp] theorem onHeap_apply (step : Heap → α × Heap) (w : World σ) :
    onHeap step w = .ok (step w.heap).1 { w with heap := (step w.heap).2 } :=
  rfl

@[simp] theorem modifyHeap_apply (f : Heap → Heap) (w : World σ) :
    modifyHeap f w = .ok () { w with heap := f w.heap } :=
  rfl

end Effect

/-- A pass in the world is a pass over the expression that starts without reductions. -/
theorem Effect.ends_pass {natives : Natives σ} {scope : Option ScopeId} {e : Expr} {w : World σ}
    {yields : Expr × Nat → World σ → Prop} {fails : EvalError → World σ → Prop}
    (h : Ends (e.reduce natives scope) ⟨w, 0⟩ (fun e' s => yields (e', s.reductions) s.world)
      fun error s => fails error s.world) : Ends (Effect.pass natives scope e) w yields fails := by
  unfold Ends at h ⊢
  unfold Effect.pass
  cases hred : e.reduce natives scope ⟨w, 0⟩ with
  | ok e' s => rw [hred] at h; exact h
  | error error s => rw [hred] at h; exact h

namespace Reduction

@[simp] theorem look_apply (f : World σ → α) (s : Pass σ) : look f s = .ok (f s.world) s := rfl

@[simp] theorem count_apply (s : Pass σ) : count s = .ok s.reductions s := rfl

/-- A step in the world that ends with a value, taken in a pass. -/
theorem perform_of_ok {action : Effect σ α} {s : Pass σ} {a : α} {w : World σ}
    (h : action s.world = .ok a w) : perform action s = .ok a { s with world := w } := by
  unfold perform
  rw [h]

/-- A step in the world that fails, taken in a pass. -/
theorem perform_of_error {action : Effect σ α} {s : Pass σ} {e : EvalError} {w : World σ}
    (h : action s.world = .error e w) : perform action s = .error e { s with world := w } := by
  unfold perform
  rw [h]

/-- What a step in the world ends with, taken in a pass. -/
theorem ends_perform {action : Effect σ α} {s : Pass σ} {yields : α → Pass σ → Prop}
    {fails : EvalError → Pass σ → Prop}
    (h : Ends action s.world (fun a w => yields a { s with world := w })
      fun e w => fails e { s with world := w }) : Ends (perform action) s yields fails := by
  cases hs : action s.world with
  | ok a w => exact Ends.of_ok (perform_of_ok hs) (h.ok hs)
  | error e w => exact Ends.of_error (perform_of_error hs) (h.error hs)

/-- Finding the plugin of an instance changes nothing. -/
@[simp] theorem pluginOf_apply (natives : Natives σ) (id : InstanceId) (s : Pass σ) :
    pluginOf natives id s =
      .ok (natives.pluginFor s.world.types (s.world.heap.get id).ty) s :=
  rfl

end Reduction

end ObjectGraph
