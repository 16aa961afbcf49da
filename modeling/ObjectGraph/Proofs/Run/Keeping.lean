import ObjectGraph.Proofs.Heap.Nesting
import ObjectGraph.Proofs.Outcome
import ObjectGraph.Proofs.Types.Growth

/-!
# What a pass keeps

While an expression is reduced, instances are added and bindings are assigned, but no instance that
was there changes in any way, and none that is added is final unless it holds no values. This is
what `World.Continues` says. It composes, so that a step is followed through its parts by one rule
(`Keeps.bind`), which carries along that no handle dangles.

Plugins and hooks are asked in between. They are taken to be inert: they answer about the world, and
do not change it (`Natives.Inert`).
-/

namespace ObjectGraph

variable {σ τ α β : Type}

/-! ## Worlds -/

namespace World

/-- No handle dangles, on the heap or in the definitions of types. -/
structure Grounded (w : World σ) : Prop where
  /-- Those on the heap. -/
  heap : w.heap.Grounded
  /-- Those in definitions. -/
  definitions : ∀ ty, ∀ e ∈ (w.types.definition ty).exprs, w.heap.Covers e

/-- What a pass may make of a world. -/
structure Continues (w w' : World σ) : Prop extends w.heap.Within w'.heap where
  /-- No handle dangles. -/
  grounded : w'.Grounded
  /-- Instances stay as they are. -/
  kept : ∀ {id : InstanceId}, id.index < w.heap.instances.size → w'.heap.get id = w.heap.get id
  /-- New instances are final only if they hold no values. -/
  fresh : ∀ {id : InstanceId}, w.heap.instances.size ≤ id.index →
    (w'.heap.get id).sealed = true → (w'.heap.get id).values = []
  /-- Parents stay as they are, and new scopes lie in older ones. -/
  nests : w.heap.NestsIn w'.heap

variable {w w' w'' : World σ}

namespace Continues

/-- A world without dangling handles continues itself. -/
theorem refl (hw : w.Grounded) : w.Continues w := by
  refine ⟨.refl, hw, fun _ => rfl, fun {id} hid hs => ?_, .refl⟩
  rw [Heap.get_of_le _ hid] at hs
  cases hs

/-- Continuations compose. -/
theorem trans (a : w.Continues w') (b : w'.Continues w'') : w.Continues w'' := by
  refine ⟨a.toWithin.trans b.toWithin, b.grounded, fun hid => ?_, fun {id} hid hs => ?_,
    a.nests.trans b.nests⟩
  · exact (b.kept (Nat.lt_of_lt_of_le hid a.instances)).trans (a.kept hid)
  · by_cases hlt : id.index < w'.heap.instances.size
    · rw [b.kept hlt] at hs ⊢
      exact a.fresh hid hs
    · exact b.fresh (Nat.le_of_not_lt hlt) hs

/-- Continuations are followed one after the other. -/
instance : IsTrans (World σ) Continues := ⟨fun _ _ _ => trans⟩

/-- What is covered stays covered. -/
theorem covers (hc : w.Continues w') {e : Expr} (he : w.heap.Covers e) : w'.heap.Covers e :=
  hc.toWithin.covers he

/-- What is on the heap stays there. -/
theorem has (hc : w.Continues w') {n : Node} (hn : w.heap.Has n) : w'.heap.Has n :=
  hc.toWithin.has hn

end Continues

/-- A heap operation that leaves the instances alone continues a world. -/
theorem continues_of_instances_eq (hw : w.Grounded) {h : Heap} (hh : h.Grounded)
    (hwithin : w.heap.Within h) (hinstances : h.instances = w.heap.instances)
    (hnests : w.heap.NestsIn h) : w.Continues { w with heap := h } := by
  have hget : ∀ id, h.get id = w.heap.get id := fun id => by rw [Heap.get, Heap.get, hinstances]
  refine ⟨hwithin, ⟨hh, fun ty e he => hwithin.covers (hw.definitions ty e he)⟩, fun _ => hget _,
    fun {id} hid hs => ?_, hnests⟩
  rw [hget, Heap.get_of_le _ hid] at hs
  cases hs

/-- A new instance continues a world, if it holds no values or is not final. -/
theorem continues_allocInstance (hw : w.Grounded) {i : Instance}
    (hscopes : ∀ entry ∈ i.scopes, w.heap.Has (.scope entry.2))
    (hvalues : ∀ e ∈ i.values, w.heap.Covers e) (hsealed : i.sealed = true → i.values = []) :
    w.Continues { w with heap := (w.heap.allocInstance i).2 } := by
  refine ⟨Heap.within_allocInstance i, ⟨hw.heap.allocInstance hscopes hvalues,
    fun ty e he => (Heap.within_allocInstance i).covers (hw.definitions ty e he)⟩,
    fun hid => Heap.get_allocInstance_of_lt _ i hid, fun {id} hid hs => ?_, fun _ _ => .inl⟩
  -- Beyond the instances that were there is the new one, and after it there is none.
  rw [Heap.get_allocInstance] at hs ⊢
  split at hs
  · rw [if_pos ‹_›]
    exact hsealed hs
  · rw [Heap.get_of_le _ hid] at hs
    cases hs

/-- More types without members continue a world. -/
theorem continues_types (hw : w.Grounded) {types : Registry} (ht : w.types.Grows types) :
    w.Continues { w with types } := by
  refine ⟨.refl, ⟨hw.heap, fun ty e he => ?_⟩, fun _ => rfl, (Continues.refl hw).fresh, .refl⟩
  by_cases hty : ty.index < w.types.size
  · rw [ht.definition hty] at he
    exact hw.definitions ty e he
  · rw [ht.memberless (Nat.le_of_not_lt hty)] at he
    cases he

end World

/-! ## Steps -/

/-- The step leads to a world to which `R` leads from the one that its state shows, whether it fails
or not, and answers something of which `yields` holds there. -/
def Moves (R : World σ → World σ → Prop) (view : τ → World σ) (step : EStateM EvalError τ α) (s : τ)
    (yields : α → World σ → Prop) : Prop :=
  Ends step s (fun a s' => R (view s) (view s') ∧ yields a (view s'))
    fun _ s' => R (view s) (view s')

namespace Moves

variable {R : World σ → World σ → Prop} {view : τ → World σ} {step : EStateM EvalError τ α} {s : τ}
variable {yields : α → World σ → Prop}

/-- The rule for sequences. -/
theorem bind [IsTrans (World σ) R] {next : α → EStateM EvalError τ β} {yields' : β → World σ → Prop}
    (h : Moves R view step s yields)
    (hnext : ∀ a s', R (view s) (view s') → yields a (view s') →
      Moves R view (next a) s' yields') : Moves R view (step >>= next) s yields' := by
  refine Ends.bind (h.mono (fun a s' ha => ?_) fun _ _ hf => hf)
  exact (hnext a s' ha.1 ha.2).mono (fun b _ hb => ⟨IsTrans.trans _ _ _ ha.1 hb.1, hb.2⟩)
    fun _ _ hf => IsTrans.trans _ _ _ ha.1 hf

/-- A step in the world, taken in a pass. -/
theorem perform {action : Effect σ α} {s : Pass σ} (h : Moves R id action s.world yields) :
    Moves R Pass.world (Reduction.perform action) s yields :=
  Reduction.ends_perform h

/-- A pure step. -/
theorem pure {a : α} (hs : R (view s) (view s)) (ha : yields a (view s)) :
    Moves R view (Pure.pure a) s yields :=
  ⟨hs, ha⟩

/-- A failure. -/
theorem throw {e : EvalError} (hs : R (view s) (view s)) :
    Moves R view (throw e : EStateM EvalError τ α) s yields :=
  hs

/-- Looking at the world first. -/
theorem read_bind {f : World σ → α} {next : α → Effect σ β} {w : World σ}
    {yields : β → World σ → Prop} (h : Moves R id (next (f w)) w yields) :
    Moves R id (Effect.read f >>= next) w yields :=
  h

/-- Looking at the world first, in a pass. -/
theorem look_bind {f : World σ → α} {next : α → Reduction σ β} {s : Pass σ}
    {yields : β → World σ → Prop} (h : Moves R Pass.world (next (f s.world)) s yields) :
    Moves R Pass.world (Reduction.perform (Effect.read f) >>= next) s yields :=
  h

/-- Finding the plugin of an instance first. -/
theorem plugin_bind {natives : Natives σ} {id : InstanceId} {next : Plugin σ → Reduction σ β}
    {s : Pass σ} {yields : β → World σ → Prop}
    (h : Moves R Pass.world (next (natives.pluginFor s.world.types (s.world.heap.get id).ty)) s
      yields) : Moves R Pass.world (Reduction.pluginOf natives id >>= next) s yields :=
  h

/-- Looking at the number of reductions first. -/
theorem count_bind {next : ℕ → Reduction σ β} {s : Pass σ} {yields : β → World σ → Prop}
    (h : Moves R Pass.world (next s.reductions) s yields) :
    Moves R Pass.world (Reduction.count >>= next) s yields :=
  h

/-- Counting a reduction changes nothing in the world. -/
theorem become {e : Expr} {s : Pass σ} {yields : Expr → World σ → Prop}
    (hs : R s.world s.world) (he : yields e s.world) :
    Moves R Pass.world (Reduction.become e) s yields :=
  ⟨hs, he⟩

/-- The world after a step is one that the step may lead to. -/
theorem after {step : Effect σ α} {w : World σ} (h : Moves R id step w yields) :
    R w (step.after w) :=
  Ends.after (P := R w) (Ends.mono h (fun _ _ ha => ha.1) fun _ _ hf => hf)

end Moves

/-- The step continues the world that its state shows, whether it fails or not, and answers
something of which `yields` holds there. -/
def Keeps (view : τ → World σ) (step : EStateM EvalError τ α) (s : τ)
    (yields : α → World σ → Prop) : Prop :=
  Ends step s (fun a s' => (view s).Continues (view s') ∧ yields a (view s'))
    (fun _ s' => (view s).Continues (view s'))

namespace Keeps

variable {view : τ → World σ} {step : EStateM EvalError τ α} {s : τ}
variable {yields : α → World σ → Prop}

/-- The rule for sequences. -/
theorem bind {next : α → EStateM EvalError τ β} {yields' : β → World σ → Prop}
    (h : Keeps view step s yields)
    (hnext : ∀ a s', (view s).Continues (view s') → yields a (view s') →
      Keeps view (next a) s' yields') : Keeps view (step >>= next) s yields' :=
  Moves.bind (R := World.Continues) h hnext

/-- A pure step. -/
theorem pure {a : α} (hw : (view s).Grounded) (ha : yields a (view s)) :
    Keeps view (Pure.pure a) s yields :=
  ⟨.refl hw, ha⟩

/-- A failure. -/
theorem throw {e : EvalError} (hw : (view s).Grounded) :
    Keeps view (throw e : EStateM EvalError τ α) s yields :=
  World.Continues.refl hw

/-- A step that is known to end with a value. -/
theorem of_ok {a : α} {s' : τ} (h : step s = .ok a s') (hc : (view s).Continues (view s'))
    (ha : yields a (view s')) : Keeps view step s yields :=
  Ends.of_ok h ⟨hc, ha⟩

/-- Looking at the world first. -/
theorem read_bind {f : World σ → α} {next : α → Effect σ β} {w : World σ}
    {yields : β → World σ → Prop} (h : Keeps id (next (f w)) w yields) :
    Keeps id (Effect.read f >>= next) w yields :=
  h

/-- A step in the world, taken in a pass. -/
theorem perform {action : Effect σ α} {s : Pass σ} (h : Keeps id action s.world yields) :
    Keeps Pass.world (Reduction.perform action) s yields :=
  Moves.perform h

/-- Counting a reduction changes nothing in the world. -/
theorem become {e : Expr} {s : Pass σ} {yields : Expr → World σ → Prop} (hw : s.world.Grounded)
    (he : yields e s.world) : Keeps Pass.world (Reduction.become e) s yields :=
  ⟨.refl hw, he⟩

/-- Registering types. -/
theorem onTypes {register : Registering α} {w : World σ} (hw : w.Grounded)
    (ht : w.types.Grows (register w.types).2) (ha : ∀ w', yields (register w.types).1 w') :
    Keeps id (Effect.onTypes register) w yields :=
  ⟨World.continues_types hw ht, ha _⟩

end Keeps

/-! ## Asking plugins and hooks -/

/-- Whether the error says that an evaluation does not come to an end. Evaluations find that
themselves; all other errors say what went wrong in a step. -/
def EvalError.isVerdict : EvalError → Bool
  | .nonTermination _ => true
  | _ => false

/-- The step leaves the world as it is, whether it fails or not. It answers something of which
`yields` holds, and has no verdict on the evaluation. -/
def Asks (step : Effect σ α) (w : World σ) (yields : α → Prop) : Prop :=
  Ends step w (fun a w' => w' = w ∧ yields a) (fun e w' => w' = w ∧ e.isVerdict = false)

namespace Asks

variable {step : Effect σ α} {w : World σ} {yields : α → Prop}

/-- The rule for sequences. -/
theorem bind {next : α → Effect σ β} {yields' : β → Prop} (h : Asks step w yields)
    (hnext : ∀ a, yields a → Asks (next a) w yields') : Asks (step >>= next) w yields' := by
  refine Ends.bind (h.mono (fun a w' ha => ?_) fun _ _ hf => hf)
  obtain ⟨rfl, hy⟩ := ha
  exact hnext a hy

/-- A pure step. -/
theorem pure {a : α} (ha : yields a) : Asks (Pure.pure a : Effect σ α) w yields := ⟨rfl, ha⟩

/-- A failure. -/
theorem throw {e : EvalError} (he : e.isVerdict = false := by rfl) :
    Asks (throw e : Effect σ α) w yields :=
  ⟨rfl, he⟩

/-- Looking at the world. -/
theorem read {f : World σ → α} (ha : yields (f w)) : Asks (Effect.read f) w yields := ⟨rfl, ha⟩

/-- What is said of the answer can be weakened. -/
theorem mono {yields' : α → Prop} (h : Asks step w yields) (hy : ∀ a, yields a → yields' a) :
    Asks step w yields' :=
  Ends.mono h (fun a _ ha => ⟨ha.1, hy a ha.2⟩) fun _ _ hf => hf

/-- What is said of the answer can be left out. -/
theorem any (h : Asks step w yields) : Asks step w fun _ => True := h.mono fun _ _ => trivial

/-- Asking leads to the world that is asked about. -/
theorem moves {R : World σ → World σ → Prop} (h : Asks step w yields) (hw : R w w)
    {yields' : α → World σ → Prop} (hy : ∀ a, yields a → yields' a w) :
    Moves R id step w yields' := by
  refine Ends.mono h (fun a w' ha => ?_) fun e w' hf => ?_
  · obtain ⟨rfl, ha⟩ := ha
    exact ⟨hw, hy a ha⟩
  · obtain ⟨rfl, -⟩ := hf
    exact hw

/-- Asking continues a world. -/
theorem keeps (h : Asks step w yields) (hw : w.Grounded) {yields' : α → World σ → Prop}
    (hy : ∀ a, yields a → yields' a w) : Keeps id step w yields' :=
  h.moves (R := World.Continues) (.refl hw) hy

end Asks

/-- The operands of an operator. -/
def Operation.operands : Operation → List InstanceId
  | .binary _ lhs rhs => [lhs, rhs]
  | .unary _ operand => [operand]

/-- A plugin that answers about the world and does not change it. What it answers mentions only
what is on the heap, if that holds of what it is asked about. -/
structure Plugin.Inert (p : Plugin σ) : Prop where
  /-- Asked for a member. -/
  property : ∀ {id name w}, w.Grounded → w.heap.Has (.object id) →
    Asks (p.property id name) w fun answer => ∀ e, answer = some e → w.heap.Covers e
  /-- Asked for an element. -/
  element : ∀ {id position w}, w.Grounded → w.heap.Has (.object id) →
    w.heap.Has (.object position) →
    Asks (p.element id position) w fun answer => ∀ e, answer = some e → w.heap.Covers e
  /-- Asked for the result of an operator. -/
  operator : ∀ {operation w}, w.Grounded → (∀ id ∈ operation.operands, w.heap.Has (.object id)) →
    Asks (p.operator operation) w fun answer => ∀ e, answer = some e → w.heap.Covers e
  /-- Asked to answer a call. -/
  call : ∀ {receiver m args w}, w.Grounded → w.heap.Has (.object receiver) →
    (∀ e ∈ args, w.heap.Covers e) →
    Asks (p.call receiver m args) w fun answer => ∀ e, answer = .produced e → w.heap.Covers e
  /-- Told that an instance is final. This cannot fail, since others are final with it. -/
  onSeal : ∀ {id w}, p.onSeal id w = .ok () w

/-- Plugins and hooks that do not change the world. -/
structure Natives.Inert (natives : Natives σ) : Prop where
  /-- The plugins. -/
  plugins : ∀ entry ∈ natives.plugins, entry.2.Inert
  /-- The hooks. -/
  hooks : ∀ hook ∈ natives.hooks, ∀ {id w}, w.Grounded → w.heap.Has (.object id) →
    Asks (hook id) w fun e => w.heap.Covers e

end ObjectGraph
