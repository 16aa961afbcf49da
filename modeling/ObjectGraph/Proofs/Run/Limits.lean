import ObjectGraph.Proofs.Heap.Extension
import ObjectGraph.Proofs.Heap.Promises
import ObjectGraph.Proofs.Run.Inert
import ObjectGraph.Run.Evaluator

/-!
# What evaluation does by itself

Between its questions to plugins, a pass changes types and heap, but it never marks an instance as
final or takes a mark away, it moves promises only by reading them, and it fails with errors that say
what went wrong, not with a verdict on the evaluation. So whatever limits there are on what plugins
may do, the whole pass stays within them (`Expr.obeys`) if they leave room for that (`Limits`,
`Limits.AllowsReads`). This needs no assumption on the world, nor on the expression. Four such limits
are of use: not to touch marks, not to fail with a verdict, not to write anything down, and not to
move promises.

What plugins do when instances become final is no matter of passes, and limits on it are asked for
only where instances are sealed.
-/

namespace ObjectGraph

variable {σ τ α β : Type}

/-! ## Marks -/

/-- Instances stay on the heap, and none of them is marked as final or loses its mark. -/
structure Heap.KeepsMarks (h h' : Heap) : Prop where
  /-- Instances stay. -/
  has : ∀ {id : InstanceId}, h.Has (.object id) → h'.Has (.object id)
  /-- So do their marks. -/
  sealed : ∀ {id : InstanceId}, h.Has (.object id) → (h'.get id).sealed = (h.get id).sealed

namespace Heap.KeepsMarks

variable {h h' h'' : Heap}

/-- Marks that are kept twice are kept. -/
theorem trans (a : h.KeepsMarks h') (b : h'.KeepsMarks h'') : h.KeepsMarks h'' :=
  ⟨fun hid => b.has (a.has hid), fun hid => (b.sealed (a.has hid)).trans (a.sealed hid)⟩

/-- The same instances have the same marks. -/
theorem of_instances_eq (heq : h'.instances = h.instances) : h.KeepsMarks h' where
  has hid := by
    rw [Heap.Has, heq]
    exact hid
  sealed _ := by rw [Heap.get, Heap.get, heq]

/-- A new instance leaves the others as they are. -/
theorem allocInstance (i : Instance) : h.KeepsMarks (h.allocInstance i).2 where
  has hid := (Heap.within_allocInstance i).has hid
  sealed hid := by rw [Heap.get_allocInstance_of_lt h i hid]

/-- A change of an instance that is not one of its mark. -/
theorem modifyInstance (id : InstanceId) {f : Instance → Instance}
    (hf : ∀ i, (f i).sealed = i.sealed) : h.KeepsMarks (h.modifyInstance id f) where
  has hid := (Heap.within_modifyInstance id f).has hid
  sealed _ := by
    rw [Heap.get_modifyInstance]
    split
    · exact hf _
    · rfl

/-- Writing a cell is no change of a mark. -/
theorem write (c : Cell) (e : Expr) : h.KeepsMarks (h.write c e) where
  has hid := (Heap.within_write c e).has hid
  sealed _ := Heap.sealed_write ..

/-- Reading a promise is no change of a mark. -/
theorem readPromise (h : Heap) (id : PromiseId) : h.KeepsMarks (h.readPromise id).2 := by
  have hreads := h.readsTo_readPromise id
  generalize h.readPromise id = read at hreads ⊢
  cases hreads with
  | waits | shares | fails => exact .of_instances_eq rfl
  | @converts value hp =>
    cases value with
    | value ty payload =>
      exact (allocInstance (.ofPayload ty payload)).trans (.of_instances_eq rfl)
    | missing ty => exact .of_instances_eq rfl

end Heap.KeepsMarks

/-! ## Limits -/

/-- Limits on what steps may do. They leave room for what evaluation does by itself. -/
structure Limits (σ : Type) where
  /-- Which worlds may come of a world. -/
  allows : World σ → World σ → Prop
  /-- Which errors may come up. -/
  admits : EvalError → Prop
  /-- What may be done one after the other may be done together. -/
  trans : ∀ {w w' w''}, allows w w' → allows w' w'' → allows w w''
  /-- Types and heap may change, as long as marks and promises are kept. -/
  own : ∀ (w : World σ) (types : Registry) {heap : Heap}, w.heap.KeepsMarks heap →
    heap.promises = w.heap.promises → allows w ⟨types, heap, w.host⟩
  /-- An error may say what went wrong. -/
  faults : ∀ {e}, e.isVerdict = false → admits e

namespace Limits

/-- Not to touch the marks of instances. -/
def marks : Limits σ where
  allows w w' := w.heap.KeepsMarks w'.heap
  admits _ := True
  trans := .trans
  own _ _ _ h _ := h
  faults _ := trivial

/-- Not to fail with a verdict on the evaluation. -/
def noVerdict : Limits σ where
  allows _ _ := True
  admits e := e.isVerdict = false
  trans _ _ := trivial
  own _ _ _ _ _ := trivial
  faults h := h

/-- Not to write anything down, in a record that the host keeps. -/
def unrecorded (record : σ → List InstanceId) : Limits σ where
  allows w w' := record w'.host = record w.host
  admits _ := True
  trans h h' := h'.trans h
  own _ _ _ _ _ := rfl
  faults _ := trivial

/-- Not to move promises. New ones may be made, which wait for their tasks. -/
def spawning : Limits σ where
  allows w w' := w.heap.Spawns w'.heap
  admits _ := True
  trans := .trans
  own _ _ _ _ h := .of_promises_eq h
  faults _ := trivial

/-- Nothing has to change. -/
theorem refl (L : Limits σ) (w : World σ) : L.allows w w :=
  L.own w w.types (.of_instances_eq rfl) rfl

/-- The limits leave room for reading promises. -/
def AllowsReads (L : Limits σ) : Prop :=
  ∀ (w : World σ) id, L.allows w { w with heap := (w.heap.readPromise id).2 }

/-- Reading a promise touches no marks. -/
theorem allowsReads_marks : (marks : Limits σ).AllowsReads := fun w id => .readPromise w.heap id

/-- Reading a promise is no verdict. -/
theorem allowsReads_noVerdict : (noVerdict : Limits σ).AllowsReads := fun _ _ => trivial

/-- Reading a promise writes nothing down. -/
theorem allowsReads_unrecorded (record : σ → List InstanceId) : (unrecorded record).AllowsReads :=
  fun _ _ => rfl

end Limits

/-- The step stays within the limits, in the world that its state shows and whether it fails or
not. -/
def Obeys (L : Limits σ) (view : τ → World σ) (step : EStateM EvalError τ α) : Prop :=
  ∀ s, Ends step s (fun _ s' => L.allows (view s) (view s'))
    fun e s' => L.allows (view s) (view s') ∧ L.admits e

/-- A plugin that stays within the limits, whatever it is asked. -/
structure Plugin.AnswersWithin (p : Plugin σ) (L : Limits σ) : Prop where
  /-- Asked for a member. -/
  property : ∀ {target name}, Obeys L id (p.property target name)
  /-- Asked for an element. -/
  element : ∀ {target position}, Obeys L id (p.element target position)
  /-- Asked for the result of an operator. -/
  operator : ∀ {operation}, Obeys L id (p.operator operation)
  /-- Asked to answer a call. -/
  call : ∀ {receiver m args}, Obeys L id (p.call receiver m args)

/-- A plugin that stays within the limits also when it is told that an instance is final. -/
structure Plugin.Obeys (p : Plugin σ) (L : Limits σ) : Prop extends p.AnswersWithin L where
  /-- Told that an instance is final. -/
  onSeal : ∀ {target}, ObjectGraph.Obeys L id (p.onSeal target)

/-- Plugins and hooks that stay within the limits, whatever they are asked. -/
structure Natives.AnswersWithin (natives : Natives σ) (L : Limits σ) : Prop where
  /-- The plugins. -/
  plugins : ∀ entry ∈ natives.plugins, entry.2.AnswersWithin L
  /-- The hooks. -/
  hooks : ∀ hook ∈ natives.hooks, ∀ {target}, Obeys L id (hook target)

/-- Plugins and hooks that stay within the limits also when instances become final. -/
structure Natives.Obeys (natives : Natives σ) (L : Limits σ) : Prop where
  /-- The plugins. -/
  plugins : ∀ entry ∈ natives.plugins, entry.2.Obeys L
  /-- The hooks. -/
  hooks : ∀ hook ∈ natives.hooks, ∀ {target}, ObjectGraph.Obeys L id (hook target)

variable {L : Limits σ} {natives : Natives σ} {view : τ → World σ}

/-- Asking stays within all limits. -/
theorem Asks.obeys {step : Effect σ α} (h : ∀ {w}, Asks step w fun _ => True) :
    Obeys L id step := fun w =>
  Ends.mono h (fun _ _ ha => ha.1 ▸ L.refl w) fun _ _ hf => ⟨hf.1 ▸ L.refl w, L.faults hf.2⟩

/-- A plugin that only reads the world stays within all limits. -/
theorem Plugin.Steady.obeys {p : Plugin σ} (h : p.Steady) : p.Obeys L where
  property := Asks.obeys h.property
  element := Asks.obeys h.element
  operator := Asks.obeys h.operator
  call := Asks.obeys h.call
  onSeal := Asks.obeys h.onSeal

/-- A plugin that leaves everything but sealing as it is for any instance. -/
theorem Plugin.answersWithin_of_onSeal (onSeal : InstanceId → Effect σ Unit) :
    Plugin.AnswersWithin ({ onSeal := onSeal } : Plugin σ) L where
  property := Asks.obeys Plugin.steady_plainClass.property
  element := Asks.obeys (.read_bind .throw)
  operator := Asks.obeys Plugin.steady_plainClass.operator
  call := Asks.obeys (.read_bind .throw)

/-- The built-in plugins and the `toString` hook stay within all limits. -/
theorem Natives.obeys_builtin : (builtin : Natives σ).Obeys L where
  plugins entry hentry := (steady_builtin.plugins entry hentry).obeys
  hooks hook hhook := Asks.obeys (steady_builtin.hooks hook hhook)

namespace Natives

/-- What is obeyed is obeyed in the answers. -/
theorem Obeys.answersWithin (hn : natives.Obeys L) : natives.AnswersWithin L where
  plugins entry hentry := (hn.plugins entry hentry).toAnswersWithin
  hooks := hn.hooks

/-- The plugin that speaks for a type answers within the limits if the registered ones do. -/
theorem AnswersWithin.pluginFor (hn : natives.AnswersWithin L) (types : Registry) (ty : TypeId) :
    (natives.pluginFor types ty).AnswersWithin L :=
  forall_pluginFor (P := fun p => p.AnswersWithin L)
    Plugin.steady_plainClass.obeys.toAnswersWithin hn.plugins types ty

/-- The plugin that speaks for a type stays within the limits if the registered ones do. -/
theorem Obeys.pluginFor (hn : natives.Obeys L) (types : Registry) (ty : TypeId) :
    (natives.pluginFor types ty).Obeys L :=
  forall_pluginFor (P := fun p => p.Obeys L) Plugin.steady_plainClass.obeys hn.plugins types ty

end Natives

/-! ## Steps -/

/-- What a reader of a promise goes on with. -/
def Reading.answer (id : PromiseId) (ty : TypeId) : Reading → Reduction σ Expr
  | .waits => pure (.promise id ty)
  | .yields node => Reduction.become node
  | .fails message => throw (.promiseRejected message)

/-- Reducing a promise is reading it and going on with what has been read. -/
theorem Reduction.promise_apply (id : PromiseId) (ty : TypeId) (s : Pass σ) :
    Reduction.promise id ty s = (s.world.heap.readPromise id).1.answer id ty
      { s with world.heap := (s.world.heap.readPromise id).2 } := by
  rw [Reduction.promise, bind_of_ok (look_apply _ s)]
  unfold Heap.readPromise
  cases s.world.heap.promise id with
  | registered ty task => rfl
  | inFlight ty => rfl
  | resolved node => rfl
  | rejected message => rfl
  | settled result =>
    cases result with
    | error message => rfl
    | ok value => cases value <;> rfl

namespace Obeys

/-- A pure step. -/
theorem pure {a : α} : Obeys L view (Pure.pure a) := fun s => Ends.of_ok rfl (L.refl (view s))

/-- A failure. -/
theorem throw {e : EvalError} (he : e.isVerdict = false := by rfl) :
    Obeys L view (throw e : EStateM EvalError τ α) :=
  fun s => Ends.of_error rfl ⟨L.refl (view s), L.faults he⟩

/-- The rule for sequences. -/
theorem bind {step : EStateM EvalError τ α} {next : α → EStateM EvalError τ β}
    (h : Obeys L view step) (hnext : ∀ a, Obeys L view (next a)) :
    Obeys L view (step >>= next) := fun s => by
  refine Ends.bind ((h s).mono (fun a s₁ h₁ => ?_) fun _ _ hf => hf)
  exact (hnext a s₁).mono (fun _ _ h₂ => L.trans h₁ h₂) fun _ _ h₂ => ⟨L.trans h₁ h₂.1, h₂.2⟩

/-- The world after a step that stays within limits. -/
theorem after {step : Effect σ α} (h : Obeys L id step) (w : World σ) : L.allows w (step.after w) :=
  Ends.after (P := L.allows w) ((h w).mono (fun _ _ h => h) fun _ _ h => h.1)

/-- Limits that leave more room. -/
theorem mono {L' : Limits σ} {step : EStateM EvalError τ α} (h : Obeys L view step)
    (hallows : ∀ {w w'}, L.allows w w' → L'.allows w w') (hadmits : ∀ {e}, L.admits e → L'.admits e) :
    Obeys L' view step :=
  fun s => (h s).mono (fun _ _ ha => hallows ha) fun _ _ hf => ⟨hallows hf.1, hadmits hf.2⟩

/-- Looking at the world. -/
theorem read {f : World σ → α} : Obeys L id (Effect.read f) :=
  fun w => Ends.of_ok rfl (L.refl w)

/-- Registering types. -/
theorem onTypes {register : Registering α} : Obeys L id (Effect.onTypes register) :=
  fun w => Ends.of_ok rfl (L.own w (register w.types).2 (.of_instances_eq rfl) rfl)

/-- Allocating. -/
theorem onHeap {step : Heap → α × Heap} (h : ∀ heap : Heap, heap.KeepsMarks (step heap).2)
    (hpromises : ∀ heap : Heap, (step heap).2.promises = heap.promises) :
    Obeys L id (Effect.onHeap step) :=
  fun w => Ends.of_ok rfl (L.own w w.types (h w.heap) (hpromises w.heap))

/-- Changing the heap. -/
theorem modifyHeap {f : Heap → Heap} (h : ∀ heap : Heap, heap.KeepsMarks (f heap))
    (hpromises : ∀ heap : Heap, (f heap).promises = heap.promises) :
    Obeys L id (Effect.modifyHeap f) :=
  fun w => Ends.of_ok rfl (L.own w w.types (h w.heap) (hpromises w.heap))

/-- Allocating an instance that carries data. -/
theorem allocValue {ty : TypeId} {payload : Payload} :
    Obeys L id (Effect.allocValue ty payload : Effect σ InstanceId) :=
  onHeap (fun _ => .allocInstance _) fun _ => rfl

/-- Allocating a scope. -/
theorem allocScope {sc : Scope} :
    Obeys L id (Effect.onHeap (Heap.allocScope sc) : Effect σ ScopeId) :=
  onHeap (fun _ => .of_instances_eq rfl) fun _ => rfl

/-- Allocating a constructor scope. -/
theorem constructorScope {cls ty : TypeId} {receiver : InstanceId} {args : List Expr} :
    Obeys L id (Effect.constructorScope cls ty receiver args : Effect σ ScopeId) :=
  read.bind fun _ => onTypes.bind fun _ => allocScope

/-- Allocating the constructor scopes of a lineage. -/
theorem constructorScopes {cls : TypeId} {receiver : InstanceId} (lineage : List TypeId)
    {args : List Expr} : Obeys L id
      (Effect.constructorScopes cls receiver lineage args :
        Effect σ (List (TypeId × ScopeId))) := by
  induction lineage generalizing args with
  | nil => exact pure
  | cons ty rest ih =>
    exact constructorScope.bind fun _ => read.bind fun _ => ih.bind fun _ => pure

/-- Building an instance. -/
theorem construct {cls : TypeId} {args : List Expr} :
    Obeys L id (Effect.construct natives cls args) := by
  refine bind (onHeap (fun _ => .allocInstance _) fun _ => rfl) fun new => read.bind fun lineage => ?_
  refine (constructorScopes lineage).bind fun scopes => read.bind fun slots => ?_
  refine bind (modifyHeap (fun heap => ?_) fun _ => rfl) fun _ => pure
  exact .modifyInstance new fun _ => rfl

/-- A step in the world, taken in a pass. -/
theorem perform {action : Effect σ α} (h : Obeys L id action) :
    Obeys L Pass.world (Reduction.perform action) := fun s => Reduction.ends_perform (h s.world)

/-- Looking at the world, in a pass. -/
theorem look {f : World σ → α} : Obeys L Pass.world (Reduction.look f) := read.perform

/-- Looking at an instance, in a pass. -/
theorem instanceOf {id : InstanceId} :
    Obeys L Pass.world (Reduction.perform (Effect.instanceOf id)) := read.perform

/-- Putting another expression in place. -/
theorem become {e : Expr} : Obeys L Pass.world (Reduction.become e) :=
  fun s => Ends.of_ok rfl (L.refl s.world)

/-- Looking at the number of reductions. -/
theorem count : Obeys L Pass.world (Reduction.count : Reduction σ ℕ) :=
  fun s => Ends.of_ok rfl (L.refl s.world)

/-- Finding the plugin of an instance first. -/
theorem plugin_bind (hn : natives.AnswersWithin L) {id : InstanceId} {next : Plugin σ → Reduction σ β}
    (h : ∀ plugin, plugin.AnswersWithin L → Obeys L Pass.world (next plugin)) :
    Obeys L Pass.world (Reduction.pluginOf natives id >>= next) :=
  fun s => h _ (hn.pluginFor _ _) s

/-- A plugin's answer, if it has one. -/
theorem answer {kept : Expr} {action : Effect σ (Option Expr)} (h : Obeys L id action) :
    Obeys L Pass.world (do Reduction.answerOr kept (← Reduction.perform action)) :=
  h.perform.bind fun answer => by
    cases answer with
    | some e => exact become
    | none => exact pure

/-- An instance that a step in the world makes. -/
theorem object {action : Effect σ InstanceId} (h : Obeys L id action) :
    Obeys L Pass.world (do Reduction.become (.object (← Reduction.perform action))) :=
  h.perform.bind fun _ => become

/-! ## Leaves, members and operators -/

variable {scope : Option ScopeId}

/-- Making a type concrete. -/
theorem concrete {own : TypeArgs} {ty : TypeId} :
    Obeys L Pass.world (Reduction.concrete scope own ty : Reduction σ TypeId) :=
  look.bind fun _ => onTypes.perform

/-- A literal. -/
theorem scalar {value : Scalar} : Obeys L Pass.world (Reduction.scalar value : Reduction σ Expr) :=
  object allocValue

/-- An array literal. -/
theorem array {es : List Expr} {ty : TypeId} :
    Obeys L Pass.world (Reduction.array scope es ty : Reduction σ Expr) :=
  concrete.bind fun _ => object allocValue

/-- The receiver. -/
theorem this : Obeys L Pass.world (Reduction.this scope : Reduction σ Expr) :=
  look.bind fun receiver => by
    cases receiver with
    | some receiver => exact become
    | none => exact throw

/-- A name. -/
theorem name {e : Expr} {n : String} :
    Obeys L Pass.world (Reduction.name scope e n : Reduction σ Expr) := by
  refine look.bind fun found => ?_
  split
  · exact throw
  · refine look.bind fun bound => ?_
    split
    · refine look.bind fun receiver => ?_
      split
      · exact become
      · exact throw
    · split
      · exact become
      · exact pure
    · exact pure

/-- A member. -/
theorem member (hn : natives.AnswersWithin L) (object : Expr) (name : String) (ty : TypeId) :
    Obeys L Pass.world (Reduction.member natives object name ty) := by
  unfold Reduction.member
  split
  · exact become
  · exact plugin_bind hn fun plugin hp => answer hp.property
  · exact pure

/-- An element. -/
theorem index (hn : natives.AnswersWithin L) (object position : Expr) (ty : TypeId) :
    Obeys L Pass.world (Reduction.index natives object position ty) := by
  unfold Reduction.index
  split
  · exact become
  · exact become
  · exact plugin_bind hn fun plugin hp => answer hp.element
  · exact pure

/-- A look at whether a left operand decides. -/
theorem shortCircuit (op : BinaryOp) (lhs : Expr) :
    Obeys L Pass.world (Reduction.shortCircuit op lhs : Reduction σ (Option Bool)) := by
  unfold Reduction.shortCircuit
  split
  · refine instanceOf.bind fun i => ?_
    split
    · exact pure
    · exact pure
    · exact pure
  · exact pure

/-- A binary operation. -/
theorem binary (hn : natives.AnswersWithin L) (op : BinaryOp) (lhs rhs : Expr) (ty : TypeId) :
    Obeys L Pass.world (Reduction.binary natives op lhs rhs ty) := by
  unfold Reduction.binary
  split
  · exact become
  · exact become
  · refine instanceOf.bind fun l => instanceOf.bind fun r => ?_
    dsimp only
    split
    · exact look.bind fun types => throw
    · exact plugin_bind hn fun plugin hp => answer hp.operator
  · exact pure

/-- A unary operation. -/
theorem unary (hn : natives.AnswersWithin L) (op : UnaryOp) (operand : Expr) (ty : TypeId) :
    Obeys L Pass.world (Reduction.unary natives op operand ty) := by
  unfold Reduction.unary
  split
  · exact become
  · exact plugin_bind hn fun plugin hp => answer hp.operator
  · exact pure

/-- A reflection. -/
theorem reflect (operand : Expr) :
    Obeys L Pass.world (Reduction.reflect scope operand : Reduction σ Expr) := by
  have hjoin (ty : TypeId) : Obeys L Pass.world (do
      let ty ← Reduction.concrete scope [] ty
      Reduction.become (.object (← Reduction.perform (Effect.allocValue .type (.type ty)))) :
      Reduction σ Expr) :=
    concrete.bind fun _ => object allocValue
  unfold Reduction.reflect
  dsimp only
  split
  · exact instanceOf.bind fun i => hjoin i.ty
  · exact hjoin _

/-! ## Construction and calls -/

/-- Construction. -/
theorem new {cls : TypeId} {args : List Expr} :
    Obeys L Pass.world (Reduction.new natives scope cls args) :=
  object construct

/-- Making generic arguments concrete. -/
theorem concreteArgs (typeArgs : TypeArgs) :
    Obeys L Pass.world (Reduction.concreteArgs scope typeArgs : Reduction σ TypeArgs) := by
  induction typeArgs with
  | nil => exact pure
  | cons first rest ih => exact concrete.bind fun _ => ih.bind fun _ => pure

/-- Binding the parameters of a method. -/
theorem bindArgs {typeArgs : TypeArgs} (params : List Param) (args : List Expr) : Obeys L Pass.world
    (Reduction.bindArgs scope typeArgs params args : Reduction σ (List Binding)) := by
  induction params generalizing args with
  | nil => exact pure
  | cons p ps ih =>
    cases args with
    | nil => exact concrete.bind fun _ => (ih []).bind fun _ => pure
    | cons arg args => exact (ih args).bind fun _ => pure

/-- Entering a method's body. -/
theorem enter {m : MethodRef} {receiver : InstanceId} {method : Method} {body : Body}
    {args : List Expr} {typeArgs : TypeArgs} : Obeys L Pass.world
      (Reduction.enter scope m receiver method body args typeArgs : Reduction σ Expr) := by
  refine instanceOf.bind fun i => ?_
  split
  · exact look.bind fun _ => look.bind fun _ => throw
  · refine (concreteArgs typeArgs).bind fun _ => (bindArgs _ args).bind fun _ => ?_
    exact allocScope.perform.bind fun _ => become

/-- A call. -/
theorem call (hn : natives.AnswersWithin L) (callee : Expr) (args : List Expr) (typeArgs : TypeArgs)
    (ty : TypeId) : Obeys L Pass.world (Reduction.call natives scope callee args typeArgs ty) := by
  unfold Reduction.call
  split
  · exact become
  · rename_i m receiver
    refine look.bind fun method => ?_
    split
    · exact enter
    · intro s
      refine Ends.bind (Ends.of_ok rfl ?_)
      refine (hn.pluginFor s.world.types m.owner).call.perform.bind (fun outcome => ?_) s
      cases outcome with
      | produced result => exact become
      | deferred => exact pure
  · exact pure

/-- A hook's answer. -/
theorem hooked (hn : natives.AnswersWithin L) (operand : Expr) (hook : HookId) (ty : TypeId) :
    Obeys L Pass.world (Reduction.hooked natives operand hook ty) := by
  unfold Reduction.hooked
  split
  · exact become
  · split
    · rename_i callback hcallback
      exact (hn.hooks callback (List.mem_of_getElem? hcallback)).perform.bind fun _ => become
    · exact throw
  · exact pure

/-- A promise, where reading is within the limits. -/
theorem promise (hr : L.AllowsReads) {id : PromiseId} {ty : TypeId} :
    Obeys L Pass.world (Reduction.promise id ty : Reduction σ Expr) := fun s => by
  have hread := hr s.world id
  unfold Ends
  rw [Reduction.promise_apply]
  cases (s.world.heap.readPromise id).1 with
  | waits => exact hread
  | yields node => exact hread
  | fails message => exact ⟨hread, L.faults rfl⟩

/-! ## Scopes and bodies -/

/-- Leaving a scope behind. -/
theorem leave (inner : ScopeId) (before : ℕ) (body : Expr) :
    Obeys L Pass.world (Reduction.leave inner before body : Reduction σ Expr) := by
  have hjoin (free : Bool) : Obeys L Pass.world (if body.isTerminal || free then
      Reduction.become body else Pure.pure (.scoped inner body) : Reduction σ Expr) := by
    split
    · exact become
    · exact pure
  refine count.bind fun n => ?_
  dsimp only
  split
  · exact look.bind hjoin
  · exact hjoin _

/-- Falling off the end of a body. -/
theorem fallOff {result : TypeId} :
    Obeys L Pass.world (Reduction.fallOff scope result : Reduction σ Expr) :=
  concrete.bind fun _ => become

/-- A declaration. -/
theorem declare {name : String} {ty : TypeId} {init : Expr} {rest : List Stmt} {result : TypeId} :
    Obeys L Pass.world (Reduction.declare scope name ty init rest result : Reduction σ Expr) :=
  allocScope.perform.bind fun _ => become

/-- An assignment. -/
theorem assign {name : String} (value : Expr) {rest : List Stmt} {result : TypeId} :
    Obeys L Pass.world (Reduction.assign scope name value rest result : Reduction σ Expr) := by
  unfold Reduction.assign
  split
  · refine look.bind fun found => ?_
    split
    · exact (modifyHeap (fun _ => .write _ _) fun heap =>
        heap.promises_write _ _).perform.bind fun _ => become
    · exact throw
  · exact pure

/-- A branch. -/
theorem branch (cond : Expr) {whenTrue whenFalse rest : List Stmt} {result : TypeId} :
    Obeys L Pass.world
      (Reduction.branch cond whenTrue whenFalse rest result : Reduction σ Expr) := by
  unfold Reduction.branch
  split
  · exact become
  · refine instanceOf.bind fun i => ?_
    split
    · exact become
    · exact (Asks.obeys .invalidPayload).perform
  · exact pure

end Obeys

/-! ## One pass -/

mutual

/-- **A pass stays within the limits that plugins and hooks stay in**, whatever expression it goes
over and in whatever world. -/
theorem Expr.obeys (hn : natives.AnswersWithin L) (hr : L.AllowsReads) (scope : Option ScopeId) :
    ∀ e : Expr, Obeys L Pass.world (e.reduce natives scope)
  | .scalar value => by
    rw [Expr.reduce]
    exact .scalar
  | .array elements ty => by
    rw [Expr.reduce]
    exact .array
  | .this ty => by
    rw [Expr.reduce]
    exact .this
  | .param n ty => by
    rw [Expr.reduce]
    exact .name
  | .variable n ty => by
    rw [Expr.reduce]
    exact .name
  | .member object name ty => by
    rw [Expr.reduce]
    exact (object.obeys hn hr scope).bind fun object => .member hn object name ty
  | .index object position ty => by
    rw [Expr.reduce]
    refine (object.obeys hn hr scope).bind fun object => ?_
    exact (position.obeys hn hr scope).bind fun position => .index hn object position ty
  | .binary op lhs rhs ty => by
    rw [Expr.reduce]
    refine (lhs.obeys hn hr scope).bind fun lhs => (Obeys.shortCircuit op lhs).bind fun decided => ?_
    cases decided with
    | some decided => exact .become
    | none => exact (rhs.obeys hn hr scope).bind fun rhs => .binary hn op lhs rhs ty
  | .unary op operand ty => by
    by_cases hop : op = .typeOf
    · subst hop
      rw [Expr.reduce]
      exact .reflect operand
    · rw [Expr.reduce]
      · exact (operand.obeys hn hr scope).bind fun operand => .unary hn op operand ty
      · exact hop
  | .new cls args => by
    rw [Expr.reduce]
    exact .new
  | .call callee args typeArgs ty => by
    rw [Expr.reduce]
    refine (callee.obeys hn hr scope).bind fun callee => ?_
    exact (obeysAll hn hr scope args).bind fun args => .call hn callee args typeArgs ty
  | .hooked operand hook ty => by
    rw [Expr.reduce]
    exact (operand.obeys hn hr scope).bind fun operand => .hooked hn operand hook ty
  | .promise id ty => by
    rw [Expr.reduce]
    -- The one step that changes a promise, which the limits have to leave room for.
    exact .promise hr
  | .scoped inner body => by
    rw [Expr.reduce]
    refine Obeys.count.bind fun before => ?_
    exact (body.obeys hn hr (some inner)).bind fun body => .leave inner before body
  | .block stmts result => by
    rw [Expr.reduce]
    exact obeysBody hn hr scope stmts result
  | .object id => by
    rw [Expr.reduce]
    exact .pure
  | .missing ty => by
    rw [Expr.reduce]
    exact .pure
  | .unbound method => by
    rw [Expr.reduce]
    exact .pure
  | .function method receiver => by
    rw [Expr.reduce]
    exact .pure

/-- A pass over each expression of a list. -/
theorem obeysAll (hn : natives.AnswersWithin L) (hr : L.AllowsReads) (scope : Option ScopeId) :
    ∀ es : List Expr, Obeys L Pass.world (reduceAll natives scope es)
  | [] => by
    rw [reduceAll]
    exact .pure
  | e :: es => by
    rw [reduceAll]
    exact (e.obeys hn hr scope).bind fun e => (obeysAll hn hr scope es).bind fun es => .pure

/-- A pass over a body. -/
theorem obeysBody (hn : natives.AnswersWithin L) (hr : L.AllowsReads) (scope : Option ScopeId) :
    ∀ (stmts : List Stmt) (result : TypeId),
      Obeys L Pass.world (reduceBody natives scope result stmts)
  | [], result => by
    rw [reduceBody]
    exact .fallOff
  | .result value :: _, result => by
    rw [reduceBody]
    exact .become
  | .declare name ty init :: rest, result => by
    rw [reduceBody]
    exact .declare
  | .assign name value :: rest, result => by
    rw [reduceBody]
    exact (value.obeys hn hr scope).bind fun value => .assign value
  | .branch cond whenTrue whenFalse :: rest, result => by
    rw [reduceBody]
    exact (cond.obeys hn hr scope).bind fun cond => .branch cond

end

/-! ## Sweeps -/

namespace Obeys

open Effect

/-- One pass over a cell. -/
theorem sweepCell (hn : natives.AnswersWithin L) (hr : L.AllowsReads) (c : Cell) :
    Obeys L id (Effect.sweepCell natives c) := by
  have hpass (e : Expr) : Obeys L id (Effect.pass natives none e) := fun w =>
    ends_pass (e.obeys hn hr none ⟨w, 0⟩)
  refine read.bind fun held => ?_
  split
  · exact pure
  · split
    · exact pure
    · exact (hpass _).bind fun result => bind (modifyHeap (fun _ => .write c result.1)
        fun heap => heap.promises_write c result.1) fun _ => pure

/-- Steps for each item of a list. -/
theorem sumOver {step : α → Effect σ ℕ} (h : ∀ item, Obeys L id (step item))
    (items : List α) : Obeys L id (Effect.sumOver step items) := by
  induction items with
  | nil => exact pure
  | cons item items ih => exact (h item).bind fun _ => ih.bind fun _ => pure

/-- A sweep over a scope. -/
theorem sweepScope (hn : natives.AnswersWithin L) (hr : L.AllowsReads) (order : SweepOrder)
    (scope : ScopeId) : Obeys L id (Effect.sweepScope natives order scope) :=
  read.bind fun _ => sumOver (sweepCell hn hr) _

/-- A sweep over an instance. -/
theorem sweepInstance (hn : natives.AnswersWithin L) (hr : L.AllowsReads) (order : SweepOrder)
    (owner : InstanceId) : Obeys L id (Effect.sweepInstance natives order owner) :=
  read.bind fun _ => (sumOver (sweepCell hn hr) _).bind fun _ =>
    read.bind fun _ => (sumOver (sweepCell hn hr) _).bind fun _ => pure

/-- Sealing instances in order, where the limits allow marks. -/
theorem sealEach (hn : natives.Obeys L)
    (hmark : ∀ (w : World σ) i, L.allows w { w with heap := w.heap.markSealed i })
    (ids : List InstanceId) : Obeys L id (Effect.sealEach natives ids) := by
  have hone (first : InstanceId) : Obeys L id (sealOne natives first) := by
    refine read.bind fun i => bind (fun w => Ends.of_ok rfl (hmark w first)) fun _ => fun w => ?_
    exact (hn.pluginFor w.types i.ty).onSeal w
  induction ids with
  | nil => exact pure
  | cons first ids ih => exact (hone first).bind fun _ => ih.bind fun _ => pure

/-- A whole sweep, where the limits allow marks. -/
theorem sweep (hn : natives.Obeys L) (hr : L.AllowsReads)
    (hmark : ∀ (w : World σ) i, L.allows w { w with heap := w.heap.markSealed i })
    (order : SweepOrder) (root : InstanceId) :
    Obeys L id (Effect.sweep natives order root) := by
  refine read.bind fun found => (sumOver (sweepScope hn.answersWithin hr order) _).bind fun _ => ?_
  refine (sumOver (sweepInstance hn.answersWithin hr order) _).bind fun _ => ?_
  exact (read.bind fun _ => sealEach hn hmark _).bind fun _ => pure

/-- An evaluation with a given number of sweeps left, where the limits allow marks, batches and the
verdict that there were not enough sweeps. -/
theorem runFrom (hn : natives.Obeys L) (hr : L.AllowsReads)
    (hmark : ∀ (w : World σ) i, L.allows w { w with heap := w.heap.markSealed i })
    (hawait : ∀ (w : World σ) ids, L.allows w { w with heap := (w.heap.await ids).2 })
    (hverdict : ∀ sweeps, L.admits (.nonTermination sweeps)) (order : SweepOrder) (root : InstanceId)
    (left : ℕ) (stats : RunStats) : Obeys L id (Effect.runFrom natives order root left stats) := by
  have hfailed (sweeps : ℕ) : Obeys L id (MonadExcept.throw (.nonTermination sweeps) :
      Effect σ RunStats) := fun w => Ends.of_error rfl ⟨L.refl w, hverdict sweeps⟩
  induction left generalizing stats with
  | zero => exact hfailed _
  | succ left ih =>
    refine (sweep hn hr hmark order root).bind fun cost => ?_
    dsimp only
    split
    · exact ih _
    · refine read.bind fun ids => ?_
      split
      · refine read.bind fun i => ?_
        split
        · exact pure
        · exact hfailed _
      · exact bind (fun w => Ends.of_ok rfl (hawait w _)) fun _ => ih _

end Obeys

end ObjectGraph
