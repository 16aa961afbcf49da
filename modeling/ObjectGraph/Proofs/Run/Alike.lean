import ObjectGraph.Plugin.Builtin
import ObjectGraph.Proofs.Outcome
import ObjectGraph.Proofs.Run.Inert

/-!
# Two runs at once

Two steps that are taken in two states end alike if both end with a value, or both fail and with
the same error (`EndAlike`). The values and the states that they end in may differ, as far as two
relations allow. Steps that end alike wherever they start from related states run alike (`Alike`),
and sequences of such steps run alike.

Two worlds that show the same types and the same instances are all the same to the built-in plugins:
what they answer depends on nothing else (`Natives.observant_builtin`).
-/

namespace ObjectGraph

section EndAlike

variable {ε τ α β γ δ : Type} {V : α → β → Prop} {W : γ → δ → Prop} {S : τ → τ → Prop}

/-- Both results are values, or both are the same error. -/
inductive EndAlike (V : α → β → Prop) (S : τ → τ → Prop) :
    EStateM.Result ε τ α → EStateM.Result ε τ β → Prop
  /-- Two values. -/
  | ok {a : α} {b : β} {s s' : τ} (value : V a b) (state : S s s') :
    EndAlike V S (.ok a s) (.ok b s')
  /-- One error. -/
  | error {e : ε} {s s' : τ} (state : S s s') : EndAlike V S (.error e s) (.error e s')

/-- What is said of the values and the states can be weakened. -/
theorem EndAlike.mono {V' : α → β → Prop} {S' : τ → τ → Prop} {r : EStateM.Result ε τ α}
    {r' : EStateM.Result ε τ β} (h : EndAlike V S r r') (hv : ∀ a b, V a b → V' a b)
    (hs : ∀ s s', S s s' → S' s s') : EndAlike V' S' r r' := by
  cases h with
  | ok value state => exact .ok (hv _ _ value) (hs _ _ state)
  | error state => exact .error (hs _ _ state)

/-- The rule for sequences. What the first steps end with is known in the second ones. -/
theorem EndAlike.bind {step : EStateM ε τ α} {step' : EStateM ε τ β} {next : α → EStateM ε τ γ}
    {next' : β → EStateM ε τ δ} {s s' : τ} (h : EndAlike V S (step s) (step' s'))
    (hnext : ∀ {a b t t'}, step s = .ok a t → V a b → S t t' →
      EndAlike W S (next a t) (next' b t')) :
    EndAlike W S ((step >>= next) s) ((step' >>= next') s') := by
  rw [bind_apply, bind_apply]
  cases hs : step s with
  | ok a t =>
    rw [hs] at h
    generalize step' s' = r' at h
    cases h with
    | ok value state => exact hnext hs value state
  | error e t =>
    rw [hs] at h
    generalize step' s' = r' at h
    cases h with
    | error state => exact .error state

/-- Two steps that end alike wherever they start from related states. -/
def Alike (V : α → β → Prop) (S : τ → τ → Prop) (step : EStateM ε τ α) (step' : EStateM ε τ β) :
    Prop :=
  ∀ s s', S s s' → EndAlike V S (step s) (step' s')

namespace Alike

/-- Pure steps. -/
theorem pure {a : α} {b : β} (h : V a b) :
    Alike V S (Pure.pure a : EStateM ε τ α) (Pure.pure b) := fun _ _ hs => .ok h hs

/-- Failures. -/
theorem throw {e : ε} :
    Alike V S (throw e : EStateM ε τ α) (throw e : EStateM ε τ β) := fun _ _ hs => .error hs

/-- The rule for sequences. -/
theorem bind {step : EStateM ε τ α} {step' : EStateM ε τ β} {next : α → EStateM ε τ γ}
    {next' : β → EStateM ε τ δ} (h : Alike V S step step')
    (hnext : ∀ {a b}, V a b → Alike W S (next a) (next' b)) :
    Alike W S (step >>= next) (step' >>= next') := fun _ _ hs =>
  (h _ _ hs).bind fun _ hv ht => hnext hv _ _ ht

/-- The rule for sequences whose first steps end with the same value. -/
theorem seq {step step' : EStateM ε τ α} {next : α → EStateM ε τ γ} {next' : α → EStateM ε τ δ}
    (h : Alike Eq S step step') (hnext : ∀ a, Alike W S (next a) (next' a)) :
    Alike W S (step >>= next) (step' >>= next') :=
  h.bind fun heq => heq ▸ hnext _

end Alike

end EndAlike

variable {σ α β : Type} {V : α → β → Prop} {R : World σ → World σ → Prop}

/-- Two passes that have made the same number of reductions, in related worlds. -/
def Pass.Over (R : World σ → World σ → Prop) (s s' : Pass σ) : Prop :=
  s.reductions = s'.reductions ∧ R s.world s'.world

namespace Alike

/-- Steps in the world, taken in a pass. -/
theorem perform {action : Effect σ α} {action' : Effect σ β} (h : Alike V R action action') :
    Alike V (Pass.Over R) (Reduction.perform action) (Reduction.perform action') := by
  intro s s' hs
  have hagree := h _ _ hs.2
  unfold Reduction.perform
  generalize action s.world = r, action' s'.world = r' at hagree
  cases hagree with
  | ok value state => exact .ok value ⟨hs.1, state⟩
  | error state => exact .error ⟨hs.1, state⟩

/-- Looking at related worlds. -/
theorem read {f : World σ → α} {f' : World σ → β} (h : ∀ w w', R w w' → V (f w) (f' w')) :
    Alike V R (Effect.read f) (Effect.read f') := fun w w' hs => .ok (h w w' hs) hs

/-- Looking at related worlds, in a pass. -/
theorem look {f : World σ → α} {f' : World σ → β} (h : ∀ w w', R w w' → V (f w) (f' w')) :
    Alike V (Pass.Over R) (Reduction.look f) (Reduction.look f') := (read h).perform

/-- Looking at the number of reductions. -/
theorem count : Alike Eq (Pass.Over R) Reduction.count Reduction.count :=
  fun _ _ hs => .ok hs.1 hs

/-- Putting an expression in place. -/
theorem become {e : Expr} :
    Alike Eq (Pass.Over R) (Reduction.become e) (Reduction.become e) :=
  fun _ _ hs => .ok rfl ⟨congrArg (· + 1) hs.1, hs.2⟩

end Alike

/-! ## What plugins see -/

/-- Two worlds with the same types and the same instances. -/
structure World.LooksLike (w w' : World σ) : Prop where
  /-- The types are the same. -/
  types : w'.types = w.types
  /-- The instances are the same. -/
  instances : w'.heap.instances = w.heap.instances

namespace World.LooksLike

variable {w w' : World σ}

/-- Each instance is the same. -/
theorem get (h : w.LooksLike w') (id : InstanceId) : w'.heap.get id = w.heap.get id := by
  rw [Heap.get, Heap.get, h.instances]

/-- The names of types are the same. -/
theorem typeName (h : w.LooksLike w') (id : InstanceId) : w'.typeName id = w.typeName id := by
  rw [World.typeName, World.typeName, h.types, h.get]

/-- The texts of instances are the same. -/
theorem shownText (h : w.LooksLike w') (id : InstanceId) : w'.shownText id = w.shownText id := by
  rw [World.shownText, World.shownText, World.scalarText?, World.scalarText?, h.typeName, h.types,
    h.get]

/-- The texts of joined elements are the same. -/
theorem joinParts (h : w.LooksLike w') (es : List Expr) :
    Plugin.joinParts w' es = Plugin.joinParts w es := by
  induction es with
  | nil => rfl
  | cons e es ih => cases e <;> simp only [Plugin.joinParts, ih, h.shownText]

end World.LooksLike

/-- What the step answers depends only on types and instances, and it leaves the world as it is. -/
def Observes (step : Effect σ α) : Prop :=
  ∀ w w', w.LooksLike w' →
    (∃ a, step w = .ok a w ∧ step w' = .ok a w') ∨ ∃ e, step w = .error e w ∧ step w' = .error e w'

namespace Observes

/-- A pure step. -/
theorem pure {a : α} : Observes (Pure.pure a : Effect σ α) := fun _ _ _ => .inl ⟨a, rfl, rfl⟩

/-- A failure. -/
theorem throw {e : EvalError} : Observes (throw e : Effect σ α) := fun _ _ _ => .inr ⟨e, rfl, rfl⟩

/-- Looking at what can be seen. -/
theorem read {f : World σ → α} (hf : ∀ {w w' : World σ}, w.LooksLike w' → f w' = f w) :
    Observes (Effect.read f) := fun w w' h =>
  .inl ⟨f w, rfl, congrArg (EStateM.Result.ok · w') (hf h)⟩

/-- The rule for sequences. -/
theorem bind {step : Effect σ α} {next : α → Effect σ β} (h : Observes step)
    (hnext : ∀ a, Observes (next a)) : Observes (step >>= next) := fun w w' hw => by
  rcases h w w' hw with ⟨a, ha, ha'⟩ | ⟨e, he, he'⟩
  · rw [bind_of_ok ha, bind_of_ok ha']
    exact hnext a w w' hw
  · exact .inr ⟨e, bind_of_error he, bind_of_error he'⟩

/-- Steps that only observe run alike in worlds that show the same. -/
theorem alike {step : Effect σ α} (h : Observes step) (hR : ∀ {w w'}, R w w' → w.LooksLike w') :
    Alike Eq R step step := fun w w' hw => by
  rcases h w w' (hR hw) with ⟨a, ha, ha'⟩ | ⟨e, he, he'⟩
  · rw [ha, ha']
    exact .ok rfl hw
  · rw [he, he']
    exact .error hw

/-! ### Data of instances -/

/-- An instance. -/
theorem instanceOf (id : InstanceId) : Observes (Effect.instanceOf id : Effect σ Instance) :=
  read fun h => h.get id

/-- Data that an instance does not carry. -/
theorem invalidPayload {id : InstanceId} {expected : String} :
    Observes (Effect.invalidPayload id expected : Effect σ α) :=
  (read fun h => h.typeName id).bind fun _ => throw

/-- The integer of an instance. -/
theorem intOf (id : InstanceId) : Observes (Effect.intOf id : Effect σ Int64) := by
  refine (instanceOf id).bind fun i => ?_
  split
  · exact pure
  · exact invalidPayload

/-- The float of an instance. -/
theorem floatOf (id : InstanceId) : Observes (Effect.floatOf id : Effect σ Float) := by
  refine (instanceOf id).bind fun i => ?_
  split
  · exact pure
  · exact invalidPayload

/-- The text of an instance. -/
theorem stringOf (id : InstanceId) : Observes (Effect.stringOf id : Effect σ String) := by
  refine (instanceOf id).bind fun i => ?_
  split
  · exact pure
  · exact invalidPayload

/-- The truth value of an instance. -/
theorem boolOf (id : InstanceId) : Observes (Effect.boolOf id : Effect σ Bool) := by
  refine (instanceOf id).bind fun i => ?_
  split
  · exact pure
  · exact invalidPayload

/-- The type of a reflection. -/
theorem typeOf (id : InstanceId) : Observes (Effect.typeOf id : Effect σ TypeId) := by
  refine (instanceOf id).bind fun i => ?_
  split
  · exact pure
  · exact invalidPayload

/-- The elements of an array. -/
theorem elementsOf (id : InstanceId) : Observes (Effect.elementsOf id : Effect σ (List Expr)) := by
  refine (instanceOf id).bind fun i => ?_
  split
  · exact pure
  · exact invalidPayload

/-! ### Operators -/

/-- An operator that a type does not have. -/
theorem unsupported {operation : Operation} :
    Observes (Effect.unsupported operation : Effect σ α) :=
  (read fun h => h.typeName _).bind fun _ => throw

/-- An integer that must fit. -/
theorem checked {op : String} {value : Option Int64} :
    Observes (Effect.checked op value : Effect σ (Option Expr)) := by
  cases value with
  | none => exact throw
  | some value => exact pure

/-- A comparison. -/
theorem comparison {operation : Operation} {answer : Option Bool} :
    Observes (Plugin.comparison operation answer : Effect σ (Option Expr)) := by
  cases answer with
  | none => exact unsupported
  | some answer => exact pure

/-- The operators of every instance. -/
theorem identityOperator (operation : Operation) :
    Observes (Effect.identityOperator operation : Effect σ (Option Expr)) := by
  unfold Effect.identityOperator
  split
  · exact pure
  · exact pure
  · exact unsupported

/-- The operators of integers. -/
theorem intOperator (operation : Operation) :
    Observes (Plugin.intOperator operation : Effect σ (Option Expr)) := by
  unfold Plugin.intOperator
  split
  · refine (intOf _).bind fun a => (intOf _).bind fun b => ?_
    split
    · exact checked
    · exact checked
    · exact checked
    · split
      · exact throw
      · exact checked
    · split
      · exact throw
      · exact checked
    · exact comparison
  · exact (intOf _).bind fun a => checked
  · exact unsupported

/-- The operators of floats. -/
theorem floatOperator (operation : Operation) :
    Observes (Plugin.floatOperator operation : Effect σ (Option Expr)) := by
  unfold Plugin.floatOperator
  split
  · refine (floatOf _).bind fun a => (floatOf _).bind fun b => ?_
    split
    · exact pure
    · exact pure
    · exact pure
    · split
      · exact throw
      · exact pure
    · split
      · exact throw
      · exact pure
    · exact comparison
  · exact (floatOf _).bind fun a => pure
  · exact unsupported

/-- The operators of texts. -/
theorem stringOperator (operation : Operation) :
    Observes (Plugin.stringOperator operation : Effect σ (Option Expr)) := by
  unfold Plugin.stringOperator
  split
  · refine (stringOf _).bind fun a => (stringOf _).bind fun b => ?_
    split
    · exact pure
    · exact comparison
  · exact unsupported

/-- The operators of truth values. -/
theorem boolOperator (operation : Operation) :
    Observes (Plugin.boolOperator operation : Effect σ (Option Expr)) := by
  unfold Plugin.boolOperator
  split
  · refine (boolOf _).bind fun a => (boolOf _).bind fun b => ?_
    split
    · exact pure
    · exact pure
    · exact pure
    · exact pure
    · exact unsupported
  · exact (boolOf _).bind fun a => pure
  · exact unsupported

/-- The operators of reflections. -/
theorem typeOperator (operation : Operation) :
    Observes (Plugin.typeOperator operation : Effect σ (Option Expr)) := by
  unfold Plugin.typeOperator
  split
  · exact (typeOf _).bind fun a => (typeOf _).bind fun b => pure
  · exact (typeOf _).bind fun a => (typeOf _).bind fun b => pure
  · exact identityOperator _

/-! ### Members, elements and calls -/

/-- A member out of an instance's slots. -/
theorem resolveSlot (id : InstanceId) (name : String) :
    Observes (Effect.resolveSlot id name : Effect σ (Option Expr)) := by
  refine (instanceOf id).bind fun i => ?_
  split
  · exact pure
  · refine (read fun h => by rw [h.types]).bind fun method => ?_
    split
    · exact pure
    · exact (read fun h => h.typeName id).bind fun _ => throw

/-- The elements of arrays. -/
theorem arrayElement (id position : InstanceId) :
    Observes (Plugin.arrayElement id position : Effect σ (Option Expr)) := by
  refine (intOf position).bind fun i =>
    (read fun h => by rw [h.types, h.get]).bind fun ty => (elementsOf id).bind fun elements => ?_
  split
  · exact pure
  · exact pure

/-- The bodiless methods of plain classes. -/
theorem plainCall (receiver : InstanceId) (m : MethodRef) (args : List Expr) :
    Observes ((Plugin.plainClass : Plugin σ).call receiver m args) := by
  refine (read fun h => by rw [h.types]).bind fun method => ?_
  dsimp only
  split
  · exact pure
  · exact throw

/-- The bodiless methods of arrays. -/
theorem arrayCall (receiver : InstanceId) (m : MethodRef) (args : List Expr) :
    Observes (Plugin.arrayCall receiver m args : Effect σ CallOutcome) := by
  refine (read fun h => by rw [h.types]).bind fun method => ?_
  dsimp only
  split
  · exact throw
  · split
    · exact pure
    · refine (stringOf _).bind fun separator => (elementsOf receiver).bind fun elements =>
        (read fun h => h.joinParts elements).bind fun parts => ?_
      split
      · exact pure
      · exact pure

end Observes

/-- A plugin whose answers depend only on types and instances. -/
structure Plugin.Observant (p : Plugin σ) : Prop where
  /-- Asked for a member. -/
  property : ∀ id name, Observes (p.property id name)
  /-- Asked for an element. -/
  element : ∀ id position, Observes (p.element id position)
  /-- Asked for the result of an operator. -/
  operator : ∀ operation, Observes (p.operator operation)
  /-- Asked to answer a call. -/
  call : ∀ receiver m args, Observes (p.call receiver m args)

/-- Plugins and hooks whose answers depend only on types and instances. -/
structure Natives.Observant (natives : Natives σ) : Prop where
  /-- The plugins. -/
  plugins : ∀ entry ∈ natives.plugins, entry.2.Observant
  /-- The hooks. -/
  hooks : ∀ hook ∈ natives.hooks, ∀ id, Observes (hook id)

namespace Plugin

/-- An element of an instance that has none. -/
theorem observes_unsupportedIndex (id : InstanceId) :
    Observes (do throw (.unsupportedIndex (← Effect.read (·.typeName id))) : Effect σ α) :=
  (Observes.read fun h => h.typeName id).bind fun _ => .throw

/-- A method without a body that nobody answers. -/
theorem observes_missingMethodBody (m : MethodRef) :
    Observes (do throw (.missingMethodBody (← Effect.read (·.types.method m)).name) :
      Effect σ α) :=
  (Observes.read fun h => by rw [h.types]).bind fun _ => .throw

/-- A plugin that leaves everything but operators as it is for any instance. -/
theorem observant_of_operator {operator : Operation → Effect σ (Option Expr)}
    (h : ∀ operation, Observes (operator operation)) :
    Observant ({ operator := operator } : Plugin σ) where
  property := .resolveSlot
  element id _ := observes_unsupportedIndex id
  operator := h
  call _ m _ := observes_missingMethodBody m

/-- Classes without a plugin. -/
theorem observant_plainClass : Observant (plainClass : Plugin σ) where
  property := .resolveSlot
  element id _ := observes_unsupportedIndex id
  operator := .identityOperator
  call := .plainCall

/-- Texts. -/
theorem observant_string : Observant (string : Plugin σ) where
  property id name := by
    simp only [string]
    split
    · exact (Observes.stringOf id).bind fun text => .pure
    · exact .resolveSlot id name
  element id _ := observes_unsupportedIndex id
  operator := .stringOperator
  call _ m _ := observes_missingMethodBody m

/-- Arrays. -/
theorem observant_array : Observant (array : Plugin σ) where
  property id name := by
    simp only [array]
    split
    · exact (Observes.elementsOf id).bind fun elements => .pure
    · exact .resolveSlot id name
  element := .arrayElement
  operator := .identityOperator
  call := .arrayCall

/-- Reflections. -/
theorem observant_type : Observant (type : Plugin σ) where
  property id name := by
    simp only [type]
    split
    · refine (Observes.typeOf id).bind fun ty => ?_
      exact (Observes.read fun h => by rw [h.types]).bind fun _ => .pure
    · exact .resolveSlot id name
  element id _ := observes_unsupportedIndex id
  operator := .typeOperator
  call _ m _ := observes_missingMethodBody m

end Plugin

namespace Natives

/-- **The built-in plugins and the `toString` hook see types and instances only.** -/
theorem observant_builtin : (builtin : Natives σ).Observant where
  plugins entry hentry := by
    simp only [builtin, List.mem_cons, List.not_mem_nil, or_false] at hentry
    rcases hentry with rfl | rfl | rfl | rfl | rfl | rfl
    · exact Plugin.observant_of_operator .intOperator
    · exact Plugin.observant_of_operator .floatOperator
    · exact Plugin.observant_string
    · exact Plugin.observant_of_operator .boolOperator
    · exact Plugin.observant_array
    · exact Plugin.observant_type
  hooks hook hhook id := by
    obtain rfl := List.mem_singleton.mp hhook
    exact .read fun h => congrArg Expr.string (h.shownText id)

/-- The plugin that speaks for a type is observant if the registered ones are. -/
theorem Observant.pluginFor {natives : Natives σ} (hn : natives.Observant) (types : Registry)
    (ty : TypeId) : (natives.pluginFor types ty).Observant :=
  forall_pluginFor Plugin.observant_plainClass hn.plugins types ty

end Natives

end ObjectGraph
