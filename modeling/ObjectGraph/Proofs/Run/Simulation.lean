import ObjectGraph.Proofs.Heap.Likeness
import ObjectGraph.Proofs.Run.Alike
import ObjectGraph.Proofs.Run.Limits
import ObjectGraph.Proofs.Run.Wiring
import ObjectGraph.Proofs.Types.Substituting

/-!
# Passes in two worlds

A pass does a few things to a world: it registers types, adds scopes and instances, assigns values
to bindings, and moves promises. A relation of worlds that each of these keeps, and that leaves the
same to be found by name on both sides, is kept by whole passes (`Expr.simulated`). The two passes
answer the same expression and make as many reductions, or fail with the same error.

What new scopes bind names to may differ in the two worlds (`Simulates.allocScope`), as long as it
is pending in both: this leaves room for arguments that are closed over a scope in the one world and
not in the other.
-/

namespace ObjectGraph

variable {σ : Type} {natives : Natives σ} {A : Expr → Expr → Prop}
variable {R : World σ → World σ → Prop}

/-- A relation of worlds that is kept by what passes do, where expressions may move into new scopes
in two ways that `A` relates. -/
structure Simulates (A : Expr → Expr → Prop) (R : World σ → World σ → Prop) : Prop where
  /-- An expression may move as it is. -/
  same : ∀ e, A e e
  /-- The types are the same. -/
  types : ∀ {w w'}, R w w' → w'.types = w.types
  /-- The heaps differ in pending bindings at most. -/
  heap : ∀ {w w'}, R w w' → w.heap.Matches Expr.Pending w'.heap
  /-- Types may be registered. -/
  onTypes : ∀ {w w'} {types : Registry}, R w w' → w.types.Extends types →
    R { w with types } { w' with types }
  /-- Scopes may be added, with bindings that have moved there. -/
  allocScope : ∀ {w w'} {sc sc' : Scope}, R w w' → sc.Matches A sc' →
    R { w with heap := (w.heap.allocScope sc).2 } { w' with heap := (w'.heap.allocScope sc').2 }
  /-- Instances may be added. -/
  allocInstance : ∀ {w w'} (i : Instance), R w w' →
    R { w with heap := (w.heap.allocInstance i).2 } { w' with heap := (w'.heap.allocInstance i).2 }
  /-- Values may be assigned to bindings. -/
  assign : ∀ {w w'} {e : Expr} (s : ScopeId) (i : ℕ), R w w' → e.isTerminal = true →
    R { w with heap := w.heap.write (.binding s i) e }
      { w' with heap := w'.heap.write (.binding s i) e }
  /-- Promises may move. -/
  setPromise : ∀ {w w'} (id : PromiseId) (p : Promise), R w w' →
    R { w with heap := w.heap.setPromise id p } { w' with heap := w'.heap.setPromise id p }

namespace Simulates

variable (hR : Simulates A R)
include hR

/-- The worlds show the same to plugins. -/
theorem looksLike {w w' : World σ} (hw : R w w') : w.LooksLike w' :=
  ⟨hR.types hw, (hR.heap hw).instances⟩

/-! ## Steps in the world -/

/-- Registering types. -/
theorem registering {α : Type} {register : Registering α}
    (hx : ∀ r : Registry, r.Extends (register r).2) :
    Alike Eq R (Effect.onTypes register) (Effect.onTypes register) := fun w w' hw => by
  have hnext := hR.onTypes hw (hx w.types)
  unfold Effect.onTypes
  rw [hR.types hw]
  exact .ok rfl hnext

/-- Adding scopes. -/
theorem newScope (sc sc' : Scope) (hsc : sc.Matches A sc') :
    Alike Eq R (Effect.onHeap (Heap.allocScope sc)) (Effect.onHeap (Heap.allocScope sc')) :=
  fun _ _ hw => .ok (congrArg Handle.mk (hR.heap hw).size.symm) (hR.allocScope hw hsc)

/-- Adding instances. -/
theorem newInstance (i : Instance) :
    Alike Eq R (Effect.onHeap (Heap.allocInstance i)) (Effect.onHeap (Heap.allocInstance i)) :=
  fun _ _ hw => .ok
    (congrArg (fun instances => Handle.mk instances.size) (hR.heap hw).instances.symm)
    (hR.allocInstance i hw)

/-- Constructor scopes that bind parameters to arguments that have moved. -/
theorem constructorScope (cls ty : TypeId) (receiver : InstanceId) {args args' : List Expr}
    (hargs : List.Forall₂ A args args') :
    Alike Eq R (Effect.constructorScope cls ty receiver args)
      (Effect.constructorScope cls ty receiver args') := by
  have hparams (params : List Param) {args args' : List Expr} (hargs : List.Forall₂ A args args') :
      List.Forall₂ (Binding.Matches A) (bindParams params args) (bindParams params args') := by
    induction params generalizing args args' with
    | nil => exact .nil
    | cons p ps ih =>
      cases hargs with
      | nil => exact .cons ⟨rfl, rfl, hR.same _⟩ (ih .nil)
      | cons harg hrest => exact .cons ⟨rfl, rfl, harg⟩ (ih hrest)
  intro w w' hw
  -- The same names are left for methods, and the types of the same methods are asked for.
  have hnames (name : String) :
      (bindParams (w.types.definition ty).params args').any (·.name == name) =
        (bindParams (w.types.definition ty).params args).any (·.name == name) := by
    have hmap (bs : List Binding) :
        bs.any (·.name == name) = (bs.map (·.name)).any (· == name) := by
      rw [List.any_map]
      rfl
    rw [hmap, hmap, map_name_bindParams, map_name_bindParams]
  have hmethods : (Registry.constructorBindings cls ty args' w.types).2 =
      (Registry.constructorBindings cls ty args w.types).2 := by
    simp only [Registry.constructorBindings, hnames]
  have hbindings : List.Forall₂ (Binding.Matches A)
      (Registry.constructorBindings cls ty args w.types).1
      (Registry.constructorBindings cls ty args' w.types).1 := by
    simp only [Registry.constructorBindings, hnames]
    exact List.rel_append (hparams _ hargs)
      (List.forall₂_same.mpr fun b _ => ⟨rfl, rfl, hR.same _⟩)
  have htypes := hR.onTypes hw (Registry.extends_constructorBindings cls ty args w.types)
  rw [Effect.constructorScope_eq, Effect.constructorScope_eq]
  refine EndAlike.bind (V := List.Forall₂ (Binding.Matches A)) ?_ fun {bs bs' _ _} _ hbs ht =>
    hR.newScope { receiver := some receiver, bindings := bs }
      { receiver := some receiver, bindings := bs' } ⟨rfl, rfl, rfl, hbs⟩ _ _ ht
  have hstep (args : List Expr) (u : World σ) :
      Effect.onTypes (Registry.constructorBindings cls ty args) u =
        .ok (Registry.constructorBindings cls ty args u.types).1
          { u with types := (Registry.constructorBindings cls ty args u.types).2 } := rfl
  rw [hstep, hstep, hR.types hw, hmethods]
  exact .ok hbindings htypes

/-- The constructor scopes of a lineage. -/
theorem constructorScopes (cls : TypeId) (receiver : InstanceId) (lineage : List TypeId)
    {args args' : List Expr} (hargs : List.Forall₂ A args args') :
    Alike Eq R (Effect.constructorScopes cls receiver lineage args)
      (Effect.constructorScopes cls receiver lineage args') := by
  induction lineage generalizing args args' with
  | nil => exact .pure rfl
  | cons ty rest ih =>
    refine (hR.constructorScope cls ty receiver hargs).seq fun scope => ?_
    refine (Alike.read fun w w' hw => by rw [hR.types hw]).seq fun parentArgs => ?_
    exact (ih (List.forall₂_same.mpr fun e _ => hR.same e)).seq fun scopes => .pure rfl

/-- Building an instance. -/
theorem construct (cls : TypeId) {args args' : List Expr} (hargs : List.Forall₂ A args args') :
    Alike Eq R (Effect.construct natives cls args) (Effect.construct natives cls args') := by
  -- The instance is added last, so a half-built one is nothing that worlds could differ in.
  rw [Effect.construct_eq, Effect.construct_eq]
  refine (Alike.read fun w w' hw => ?_).seq fun id => ?_
  · rw [(hR.heap hw).instances]
  refine (Alike.read fun w w' hw => by rw [hR.types hw]).seq fun lineage => ?_
  refine (hR.constructorScopes cls id lineage hargs).seq fun scopes => ?_
  exact (Alike.read fun w w' hw => by rw [hR.types hw]).seq fun slots => hR.newInstance _

/-- Reading a promise. -/
theorem readPromise {w w' : World σ} (id : PromiseId) (hw : R w w') :
    (w'.heap.readPromise id).1 = (w.heap.readPromise id).1 ∧
      R { w with heap := (w.heap.readPromise id).2 }
        { w' with heap := (w'.heap.readPromise id).2 } := by
  have hinstances := (hR.heap hw).instances
  have hstate : w'.heap.promise id = w.heap.promise id := by
    rw [Heap.promise, Heap.promise, (hR.heap hw).promises]
  unfold Heap.readPromise
  rw [hstate]
  cases w.heap.promise id with
  | registered ty task => exact ⟨rfl, hw⟩
  | inFlight ty => exact ⟨rfl, hw⟩
  | resolved node => exact ⟨rfl, hw⟩
  | rejected message => exact ⟨rfl, hR.setPromise id _ hw⟩
  | settled result =>
    cases result with
    | error message => exact ⟨rfl, hR.setPromise id _ hw⟩
    | ok value =>
      cases value with
      | missing ty => exact ⟨rfl, hR.setPromise id _ hw⟩
      | value ty payload =>
        -- Both heaps get the instance under the same handle, since they have as many.
        have hmade := hR.setPromise id (.resolved (.object ⟨w.heap.instances.size⟩))
          (hR.allocInstance (.ofPayload ty payload) hw)
        simp only [Heap.materialize, Heap.allocInstance, hinstances, true_and] at hmade ⊢
        exact hmade

end Simulates

/-! ## Leaves -/

namespace Reduction

/-- What the placeholders of a type are replaced with: the generic arguments of calls, and `any`
where there are none. -/
def replacement (scope : Option ScopeId) (own : TypeArgs) (h : Heap) (param : TypeId) :
    Option TypeId :=
  some (((own.lookup param).or (scope.bind (h.typeArg? · param))).getD .any)

/-- Making a type concrete is replacing its placeholders. -/
theorem concrete_eq (scope : Option ScopeId) (own : TypeArgs) (ty : TypeId) :
    (concrete scope own ty : Reduction σ TypeId) = (do
      let values ← look fun w => replacement scope own w.heap
      perform (Effect.onTypes (Registry.substitute values ty))) :=
  rfl

/-- What a name comes to with what it is bound to. -/
def ofBound (kept : Expr) (found : BindingRef) : Option Expr → Reduction σ Expr
  | some (.unbound method) => do
    match ← look fun w => w.heap.receiver? found.scope with
    | some receiver => become (.function method receiver)
    | none => throw .missingReceiver
  | some bound => if bound.isTerminal then become bound else pure kept
  | none => pure kept

/-- A name comes to what it is bound to. -/
theorem name_eq (scope : Option ScopeId) (e : Expr) (n : String) :
    (name scope e n : Reduction σ Expr) = (do
      match ← look fun w => scope.bind (w.heap.lookup? · n) with
      | none => throw (.unknownBinding n)
      | some found =>
        ofBound e found (← look fun w => w.heap.read? (.binding found.scope found.index))) :=
  rfl

/-- A name stays while what it is bound to is pending. -/
theorem ofBound_of_pending {e : Expr} (he : e.isTerminal = false) (kept : Expr)
    (found : BindingRef) : (ofBound kept found (some e) : Reduction σ Expr) = pure kept := by
  cases e with
  | object | missing | unbound | function => cases he
  | _ => rfl

end Reduction

namespace Simulates

variable (hR : Simulates A R) {scope scope' : Option ScopeId}
include hR

/-- Making a type concrete. -/
theorem concrete (own : TypeArgs) (ty : TypeId) :
    Alike Eq (Pass.Over R) (Reduction.concrete scope own ty) (Reduction.concrete scope own ty) := by
  rw [Reduction.concrete_eq]
  refine (Alike.look fun w w' hw => ?_).seq fun values =>
    (hR.registering fun r => .substitute values ty).perform
  funext param
  rw [Reduction.replacement, Reduction.replacement]
  cases scope with
  | none => rfl
  | some s => rw [Option.bind_some, Option.bind_some, (hR.heap hw).typeArg?]

/-- A literal. -/
theorem scalar (value : Scalar) :
    Alike Eq (Pass.Over R) (Reduction.scalar value) (Reduction.scalar value) :=
  (hR.newInstance _).perform.seq fun _ => .become

/-- An array literal. -/
theorem array (es : List Expr) (ty : TypeId) :
    Alike Eq (Pass.Over R) (Reduction.array scope es ty) (Reduction.array scope es ty) :=
  (hR.concrete [] ty).seq fun _ => (hR.newInstance _).perform.seq fun _ => .become

/-- The receiver. -/
theorem this : Alike Eq (Pass.Over R) (Reduction.this scope) (Reduction.this scope) := by
  refine (Alike.look fun w w' hw => ?_).seq fun receiver => ?_
  · cases scope with
    | none => rfl
    | some s => exact ((hR.heap hw).receiver? s).symm
  · cases receiver with
    | some receiver => exact .become
    | none => exact .throw

/-- A name. -/
theorem name (e : Expr) (n : String) :
    Alike Eq (Pass.Over R) (Reduction.name scope e n) (Reduction.name scope e n) := by
  rw [Reduction.name_eq]
  refine (Alike.look fun w w' hw => ?_).seq fun found => ?_
  · cases scope with
    | none => rfl
    | some s => exact ((hR.heap hw).lookup? s n).symm
  cases found with
  | none => exact .throw
  | some found =>
    have hheld : Alike (fun b b' => (b = none ∧ b' = none) ∨
          ∃ e e', b = some e ∧ b' = some e' ∧ e.Pending e') (Pass.Over R)
        (Reduction.look fun w => w.heap.read? (.binding found.scope found.index))
        (Reduction.look fun w => w.heap.read? (.binding found.scope found.index)) :=
      Alike.look fun w w' hw => (hR.heap hw).read? found.scope found.index
    refine hheld.bind fun {b b'} hb => ?_
    rcases hb with ⟨rfl, rfl⟩ | ⟨e₁, e₂, rfl, rfl, rfl | ⟨he₁, he₂⟩⟩
    · exact .pure rfl
    · -- Both bindings hold the same.
      unfold Reduction.ofBound
      split
      · refine (Alike.look fun w w' hw => by rw [(hR.heap hw).receiver?]).seq fun receiver => ?_
        cases receiver with
        | some receiver => exact .become
        | none => exact .throw
      · split
        · exact .become
        · exact .pure rfl
      · exact .pure rfl
    · -- Neither has been evaluated yet, so the name stays in both passes.
      rw [Reduction.ofBound_of_pending he₁, Reduction.ofBound_of_pending he₂]
      exact .pure rfl

/-- An instance. -/
theorem instanceOf (id : InstanceId) : Alike Eq (Pass.Over R)
    (Reduction.perform (Effect.instanceOf id)) (Reduction.perform (Effect.instanceOf id)) :=
  ((Observes.instanceOf id).alike hR.looksLike).perform

/-- A reflection. -/
theorem reflect (operand : Expr) :
    Alike Eq (Pass.Over R) (Reduction.reflect scope operand) (Reduction.reflect scope operand) := by
  have hjoin (ty : TypeId) : Alike Eq (Pass.Over R)
      (do
        let ty ← Reduction.concrete scope [] ty
        Reduction.become (.object (← Reduction.perform (Effect.allocValue .type (.type ty)))))
      (do
        let ty ← Reduction.concrete scope [] ty
        Reduction.become (.object (← Reduction.perform (Effect.allocValue .type (.type ty))))) :=
    (hR.concrete [] ty).seq fun _ => (hR.newInstance _).perform.seq fun _ => .become
  unfold Reduction.reflect
  dsimp only
  split
  · exact (hR.instanceOf _).seq fun i => hjoin i.ty
  · exact hjoin _

/-- A promise. -/
theorem promise (id : PromiseId) (ty : TypeId) :
    Alike Eq (Pass.Over R) (Reduction.promise id ty) (Reduction.promise id ty) := fun s s' hs => by
  obtain ⟨hreading, hnext⟩ := hR.readPromise id hs.2
  rw [Reduction.promise_apply, Reduction.promise_apply, hreading]
  cases (s.world.heap.readPromise id).1 with
  | waits => exact .ok rfl ⟨hs.1, hnext⟩
  | yields node => exact .ok rfl ⟨congrArg (· + 1) hs.1, hnext⟩
  | fails message => exact .error ⟨hs.1, hnext⟩

/-! ## Members and operators -/

/-- A look at whether a left operand decides. -/
theorem shortCircuit (op : BinaryOp) (lhs : Expr) : Alike Eq (Pass.Over R)
    (Reduction.shortCircuit op lhs) (Reduction.shortCircuit op lhs) := by
  unfold Reduction.shortCircuit
  split
  · refine (hR.instanceOf _).seq fun i => ?_
    split
    · exact .pure rfl
    · exact .pure rfl
    · exact .pure rfl
  · exact .pure rfl

section Plugins

variable (hn : natives.Observant)
include hn

/-- Asking the plugin of an instance. -/
theorem plugin {α : Type} (id : InstanceId) {next : Plugin σ → Reduction σ α}
    (h : ∀ plugin : Plugin σ, plugin.Observant →
      Alike Eq (Pass.Over R) (next plugin) (next plugin)) :
    Alike Eq (Pass.Over R) (Reduction.pluginOf natives id >>= next)
      (Reduction.pluginOf natives id >>= next) := fun s s' hs => by
  rw [bind_of_ok (Reduction.pluginOf_apply natives id s),
    bind_of_ok (Reduction.pluginOf_apply natives id s'), hR.types hs.2, (hR.looksLike hs.2).get]
  exact h _ (hn.pluginFor _ _) s s' hs

omit hn in
/-- Putting a plugin's answer in place. -/
theorem answer {kept : Expr} {action : Effect σ (Option Expr)} (h : Observes action) :
    Alike Eq (Pass.Over R) (do Reduction.answerOr kept (← Reduction.perform action))
      (do Reduction.answerOr kept (← Reduction.perform action)) :=
  (h.alike hR.looksLike).perform.seq fun answer => by
    cases answer with
    | some e => exact .become
    | none => exact .pure rfl

/-- A member. -/
theorem member (object : Expr) (name : String) (ty : TypeId) : Alike Eq (Pass.Over R)
    (Reduction.member natives object name ty) (Reduction.member natives object name ty) := by
  unfold Reduction.member
  split
  · exact .become
  · exact hR.plugin hn _ fun plugin hp => hR.answer (hp.property _ _)
  · exact .pure rfl

/-- An element. -/
theorem index (object position : Expr) (ty : TypeId) : Alike Eq (Pass.Over R)
    (Reduction.index natives object position ty) (Reduction.index natives object position ty) := by
  unfold Reduction.index
  split
  · exact .become
  · exact .become
  · exact hR.plugin hn _ fun plugin hp => hR.answer (hp.element _ _)
  · exact .pure rfl

/-- A binary operation. -/
theorem binary (op : BinaryOp) (lhs rhs : Expr) (ty : TypeId) : Alike Eq (Pass.Over R)
    (Reduction.binary natives op lhs rhs ty) (Reduction.binary natives op lhs rhs ty) := by
  unfold Reduction.binary
  split
  · exact .become
  · exact .become
  · refine (hR.instanceOf _).seq fun l => (hR.instanceOf _).seq fun r => ?_
    dsimp only
    split
    · refine (Alike.look fun w w' hw => by rw [hR.types hw]).seq fun types => ?_
      exact fun s s' hs => .error hs
    · exact hR.plugin hn _ fun plugin hp => hR.answer (hp.operator _)
  · exact .pure rfl

/-- A unary operation. -/
theorem unary (op : UnaryOp) (operand : Expr) (ty : TypeId) : Alike Eq (Pass.Over R)
    (Reduction.unary natives op operand ty) (Reduction.unary natives op operand ty) := by
  unfold Reduction.unary
  split
  · exact .become
  · exact hR.plugin hn _ fun plugin hp => hR.answer (hp.operator _)
  · exact .pure rfl

/-- A hook's answer. -/
theorem hooked (operand : Expr) (hook : HookId) (ty : TypeId) : Alike Eq (Pass.Over R)
    (Reduction.hooked natives operand hook ty) (Reduction.hooked natives operand hook ty) := by
  unfold Reduction.hooked
  split
  · exact .become
  · split
    · rename_i callback hcallback
      have hasks := hn.hooks callback (List.mem_of_getElem? hcallback)
      exact ((hasks _).alike hR.looksLike).perform.seq fun _ => .become
    · exact .throw
  · exact .pure rfl

end Plugins

/-! ## Construction and calls -/

section Moving

variable (hclose : ∀ e : Expr, A (e.closeOver scope) (e.closeOver scope'))
include hclose

/-- Construction. -/
theorem new (cls : TypeId) (args : List Expr) : Alike Eq (Pass.Over R)
    (Reduction.new natives scope cls args) (Reduction.new natives scope' cls args) := by
  refine (hR.construct cls ?_).perform.seq fun _ => .become
  rw [List.forall₂_map_left_iff, List.forall₂_map_right_iff]
  exact List.forall₂_same.mpr fun e _ => hclose e

/-- Binding the parameters of a method, none of which is left out unless the scopes are the same. -/
theorem bindArgs (typeArgs : TypeArgs) (params : List Param) (args : List Expr)
    (h : scope' = scope ∨ params.length ≤ args.length) :
    Alike (List.Forall₂ (Binding.Matches A)) (Pass.Over R)
      (Reduction.bindArgs scope typeArgs params args)
      (Reduction.bindArgs scope' typeArgs params args) := by
  induction params generalizing args with
  | nil => exact .pure .nil
  | cons p ps ih =>
    cases args with
    | nil =>
      -- The missing value is of the parameter's type, which the calling scope makes concrete.
      obtain rfl := h.resolve_right (Nat.not_succ_le_zero _)
      refine (hR.concrete typeArgs p.ty).seq fun ty => (ih [] (.inl rfl)).bind fun hbs => ?_
      exact .pure (.cons ⟨rfl, rfl, hR.same _⟩ hbs)
    | cons arg args =>
      refine (ih args (h.imp_right Nat.le_of_succ_le_succ)).bind fun hbs => ?_
      exact .pure (.cons ⟨rfl, rfl, hclose arg⟩ hbs)

/-- Entering a method's body. -/
theorem enter (m : MethodRef) (receiver : InstanceId) (method : Method) (body : Body)
    {args : List Expr} {typeArgs : TypeArgs}
    (htypes : Alike Eq (Pass.Over R) (Reduction.concreteArgs scope typeArgs)
      (Reduction.concreteArgs scope' typeArgs))
    (h : scope' = scope ∨ method.params.length ≤ args.length) : Alike Eq (Pass.Over R)
      (Reduction.enter scope m receiver method body args typeArgs)
      (Reduction.enter scope' m receiver method body args typeArgs) := by
  refine (hR.instanceOf _).seq fun i => ?_
  split
  · refine (Alike.look fun w w' hw => by rw [(hR.looksLike hw).typeName]).seq fun ty => ?_
    exact (Alike.look fun w w' hw => by rw [hR.types hw]).seq fun owner => .throw
  · rename_i parent _
    refine htypes.seq fun concrete => ?_
    refine (hR.bindArgs hclose concrete _ _ h).bind fun {bs bs'} hbs => ?_
    have hscope := hR.newScope
      { parent := some parent, receiver := some receiver, bindings := bs, typeArgs := concrete }
      { parent := some parent, receiver := some receiver, bindings := bs', typeArgs := concrete }
      ⟨rfl, rfl, rfl, hbs⟩
    exact hscope.perform.seq fun _ => .become

/-- A call. -/
theorem call (hn : natives.Observant) {callee : Expr} {args : List Expr} {typeArgs : TypeArgs}
    {ty : TypeId} {s s' : Pass σ} (hs : Pass.Over R s s')
    (htypes : Alike Eq (Pass.Over R) (Reduction.concreteArgs scope typeArgs)
      (Reduction.concreteArgs scope' typeArgs))
    (h : scope' = scope ∨ ∀ m receiver, callee = .function m receiver →
      (s.world.types.method m).params.length ≤ args.length) :
    EndAlike Eq (Pass.Over R) (Reduction.call natives scope callee args typeArgs ty s)
      (Reduction.call natives scope' callee args typeArgs ty s') := by
  unfold Reduction.call
  split
  · exact Alike.become s s' hs
  · rename_i m receiver
    refine EndAlike.bind (Alike.look (V := Eq) (fun w w' hw => by rw [hR.types hw]) s s' hs)
      fun {method method' t t'} hmethod heq ht => ?_
    subst heq
    have hmethod : method = s.world.types.method m := by
      cases hmethod
      rfl
    cases hbody : method.body with
    | some body =>
      refine hR.enter hclose m receiver method body htypes (h.imp_right fun hall => ?_) t t' ht
      rw [hmethod]
      exact hall m receiver rfl
    | none =>
      -- The plugin answers, and it cannot tell the worlds apart.
      refine EndAlike.bind (V := fun p p' => p = p' ∧ p.Observant) ?_ fun {p p' u u'} _ hp hu => ?_
      · exact Alike.perform (Alike.read fun w w' hw => by
          rw [hR.types hw]
          exact ⟨rfl, hn.pluginFor _ _⟩) t t' ht
      · obtain ⟨rfl, hp⟩ := hp
        have hcall := ((hp.call receiver m args).alike hR.looksLike).perform
        refine hcall.seq (fun outcome => ?_) u u' hu
        cases outcome with
        | produced result => exact .become
        | deferred => exact .pure rfl
  · exact Alike.pure rfl s s' hs

end Moving

/-- The generic arguments of a call. -/
theorem concreteArgs (typeArgs : TypeArgs) : Alike Eq (Pass.Over R)
    (Reduction.concreteArgs scope typeArgs) (Reduction.concreteArgs scope typeArgs) := by
  induction typeArgs with
  | nil => exact .pure rfl
  | cons arg rest ih => exact (hR.concrete [] arg.2).seq fun _ => ih.seq fun _ => .pure rfl

/-! ## Scopes and bodies -/

/-- Leaving a scope behind. -/
theorem leave (inner : ScopeId) (before : ℕ) (body : Expr) : Alike Eq (Pass.Over R)
    (Reduction.leave inner before body) (Reduction.leave inner before body) := by
  have hjoin (free : Bool) : Alike Eq (Pass.Over R)
      (if body.isTerminal || free then Reduction.become body else pure (.scoped inner body))
      (if body.isTerminal || free then Reduction.become body else pure (.scoped inner body)) := by
    split
    · exact .become
    · exact .pure rfl
  refine Alike.count.seq fun n => ?_
  dsimp only
  split
  · exact (Alike.look fun w w' hw => by rw [(hR.heap hw).isReduced, hR.types hw]).seq hjoin
  · exact hjoin _

/-- Falling off the end of a body. -/
theorem fallOff (result : TypeId) : Alike Eq (Pass.Over R) (Reduction.fallOff scope result)
    (Reduction.fallOff scope result) :=
  (hR.concrete [] result).seq fun _ => .become

/-- A declaration. -/
theorem declare (name : String) (ty : TypeId) (init : Expr) (rest : List Stmt) (result : TypeId) :
    Alike Eq (Pass.Over R) (Reduction.declare scope name ty init rest result)
      (Reduction.declare scope name ty init rest result) :=
  (hR.newScope _ _ (.refl hR.same _)).perform.seq fun _ => .become

/-- An assignment. -/
theorem assignment (name : String) (value : Expr) (rest : List Stmt) (result : TypeId) :
    Alike Eq (Pass.Over R) (Reduction.assign scope name value rest result)
      (Reduction.assign scope name value rest result) := by
  unfold Reduction.assign
  split
  · rename_i hvalue
    refine (Alike.look fun w w' hw => ?_).seq fun found => ?_
    · cases scope with
      | none => rfl
      | some s => exact ((hR.heap hw).lookup? s name).symm
    cases found with
    | none => exact .throw
    | some found =>
      have hwrite : Alike Eq R
          (Effect.modifyHeap (·.write (.binding found.scope found.index) value))
          (Effect.modifyHeap (·.write (.binding found.scope found.index) value)) :=
        fun w w' hw => .ok rfl (hR.assign found.scope found.index hw hvalue)
      exact hwrite.perform.seq fun _ => .become
  · exact .pure rfl

/-- A branch. -/
theorem branch (cond : Expr) (whenTrue whenFalse rest : List Stmt) (result : TypeId) :
    Alike Eq (Pass.Over R) (Reduction.branch cond whenTrue whenFalse rest result)
      (Reduction.branch cond whenTrue whenFalse rest result) := by
  unfold Reduction.branch
  split
  · exact .become
  · refine (hR.instanceOf _).seq fun i => ?_
    split
    · exact .become
    · exact (Observes.invalidPayload.alike hR.looksLike).perform
  · exact .pure rfl

end Simulates

/-! ## One pass -/

mutual

/-- **A pass over the same expression in related worlds** ends with the same expression, after as
many reductions, or fails with the same error, and leaves related worlds. -/
theorem Expr.simulated (hR : Simulates A R) (hn : natives.Observant) (scope : Option ScopeId) :
    ∀ e : Expr, Alike Eq (Pass.Over R) (e.reduce natives scope) (e.reduce natives scope)
  | .scalar value => by
    rw [Expr.reduce]
    exact hR.scalar value
  | .array elements ty => by
    rw [Expr.reduce]
    exact hR.array elements ty
  | .this ty => by
    rw [Expr.reduce]
    exact hR.this
  | .param n ty => by
    rw [Expr.reduce]
    exact hR.name _ n
  | .variable n ty => by
    rw [Expr.reduce]
    exact hR.name _ n
  | .member object name ty => by
    rw [Expr.reduce]
    exact (object.simulated hR hn scope).seq fun object => hR.member hn object name ty
  | .index object position ty => by
    rw [Expr.reduce]
    refine (object.simulated hR hn scope).seq fun object => ?_
    exact (position.simulated hR hn scope).seq fun position => hR.index hn object position ty
  | .binary op lhs rhs ty => by
    rw [Expr.reduce]
    refine (lhs.simulated hR hn scope).seq fun lhs => (hR.shortCircuit op lhs).seq fun decided => ?_
    cases decided with
    | some decided => exact .become
    | none => exact (rhs.simulated hR hn scope).seq fun rhs => hR.binary hn op lhs rhs ty
  | .unary op operand ty => by
    by_cases hop : op = .typeOf
    · subst hop
      rw [Expr.reduce]
      exact hR.reflect operand
    · rw [Expr.reduce]
      · exact (operand.simulated hR hn scope).seq fun operand => hR.unary hn op operand ty
      · exact hop
  | .new cls args => by
    rw [Expr.reduce]
    -- The arguments are closed over the same scope on either side.
    exact hR.new (fun _ => hR.same _) cls args
  | .call callee args typeArgs ty => by
    rw [Expr.reduce]
    refine (callee.simulated hR hn scope).seq fun callee => ?_
    refine (simulatedAll hR hn scope args).seq fun args => fun s s' hs => ?_
    exact hR.call (fun _ => hR.same _) hn hs (hR.concreteArgs typeArgs) (.inl rfl)
  | .hooked operand hook ty => by
    rw [Expr.reduce]
    exact (operand.simulated hR hn scope).seq fun operand => hR.hooked hn operand hook ty
  | .promise id ty => by
    rw [Expr.reduce]
    exact hR.promise id ty
  | .scoped inner body => by
    rw [Expr.reduce]
    refine Alike.count.seq fun before => ?_
    exact (body.simulated hR hn (some inner)).seq fun body => hR.leave inner before body
  | .block stmts result => by
    rw [Expr.reduce]
    exact simulatedBody hR hn scope stmts result
  | .object id => by
    rw [Expr.reduce]
    exact .pure rfl
  | .missing ty => by
    rw [Expr.reduce]
    exact .pure rfl
  | .unbound method => by
    rw [Expr.reduce]
    exact .pure rfl
  | .function method receiver => by
    rw [Expr.reduce]
    exact .pure rfl

/-- A pass over each expression of a list. -/
theorem simulatedAll (hR : Simulates A R) (hn : natives.Observant) (scope : Option ScopeId) :
    ∀ es : List Expr,
      Alike Eq (Pass.Over R) (reduceAll natives scope es) (reduceAll natives scope es)
  | [] => by
    rw [reduceAll]
    exact .pure rfl
  | e :: es => by
    rw [reduceAll]
    refine (e.simulated hR hn scope).seq fun e => ?_
    exact (simulatedAll hR hn scope es).seq fun es => .pure rfl

/-- A pass over a body. -/
theorem simulatedBody (hR : Simulates A R) (hn : natives.Observant) (scope : Option ScopeId) :
    ∀ (stmts : List Stmt) (result : TypeId), Alike Eq (Pass.Over R)
      (reduceBody natives scope result stmts) (reduceBody natives scope result stmts)
  | [], result => by
    rw [reduceBody]
    exact hR.fallOff result
  | .result value :: _, result => by
    rw [reduceBody]
    exact .become
  | .declare name ty init :: rest, result => by
    rw [reduceBody]
    exact hR.declare name ty init rest result
  | .assign name value :: rest, result => by
    rw [reduceBody]
    refine (value.simulated hR hn scope).seq fun value => ?_
    exact hR.assignment name value rest result
  | .branch cond whenTrue whenFalse :: rest, result => by
    rw [reduceBody]
    refine (cond.simulated hR hn scope).seq fun cond => ?_
    exact hR.branch cond whenTrue whenFalse rest result

end

end ObjectGraph
