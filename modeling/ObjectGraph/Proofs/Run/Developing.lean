import ObjectGraph.Proofs.Heap.Typed
import ObjectGraph.Proofs.Run.Building
import ObjectGraph.Proofs.Run.Inert

/-!
# Worlds with types in order

A world is well typed if its registry has come of that of a program by requests for array types and
function types, and its heap keeps to what `Heap.Typed` says: types on it are registered, and those
that are for runtime mention no placeholder (`World.Typed`). Steps lead from such a world to
another, by more requests (`World.Develops`). This module has the steps that passes and calls are
made of: allocation, and the construction of instances.
-/

namespace ObjectGraph

variable {σ τ α : Type} {base r : Registry}

/-! ## Requests of an evaluation -/

namespace Registry

/-- The registry of a program. Its parts fit together, and its members mention registered types. -/
structure WellFormed (r : Registry) : Prop extends r.Coherent, r.HasBuiltins where
  /-- What members mention is registered. -/
  linked : r.Linked

/-- The type of a method is a function type of registered types. -/
theorem Linked.methodType (h : r.Linked) (hsize : 0 < r.size) (m : MethodRef) :
    r.Formed (Registry.methodType m r).2 := by
  obtain ⟨hresult, hparams⟩ := h.method hsize m
  have hrequest := Forms.request (r := r)
    (.function ((r.method m).params.map (·.ty)) (r.method m).result) (List.cons_ne_nil _ _)
    (List.forall_mem_cons.mpr ⟨hresult, List.forall_mem_map.mpr hparams⟩)
  rw [methodType_apply]
  exact .single hrequest

/-- Binding methods asks for their types. -/
theorem Linked.bindMethods (h : r.Linked) (hsize : 0 < r.size) (cls : TypeId)
    (names : List String) : r.Formed (ObjectGraph.bindMethods cls names r).2 := by
  induction names generalizing r with
  | nil => exact .refl
  | cons name names ih =>
    cases hm : r.findMethod cls name with
    | none =>
      rw [bindMethods_of_none hm]
      exact ih h hsize
    | some method =>
      have hmethod := h.methodType hsize method
      rw [bindMethods_of_some hm]
      exact hmethod.trans (ih (h.formed hmethod)
        (Nat.lt_of_lt_of_le hsize hmethod.grows.toExtends.size))

end Registry

/-! ## Worlds -/

namespace World

variable {w w' w'' : World σ}

/-- Evaluation has gone on in the world from the registry of a program, in which requests for types
without placeholders are answered by such types. Types on the heap are registered, and those that
are for runtime mention no placeholder. -/
structure Typed (base : Registry) (w : World σ) : Prop where
  /-- The program mentions registered types. -/
  program : base.WellFormed
  /-- Requests for types without placeholders are answered by such types. -/
  faithful : base.Faithful
  /-- Array types and function types have been asked for. -/
  formed : base.Formed w.types
  /-- Types on the heap are in order. -/
  heap : w.heap.Typed w.types

/-- The instance is there, and the type that it shows mentions no placeholder. -/
structure Shows (w : World σ) (id : InstanceId) (ty : TypeId) : Prop where
  /-- The instance is on the heap. -/
  has : id.index < w.heap.instances.size
  /-- It shows the type. -/
  shown : (w.heap.get id).shown? = some ty
  /-- The type mentions no placeholder. -/
  concrete : w.types.Concrete ty

/-- Evaluation leads from the one world to the other, which is well typed. -/
structure Develops (base : Registry) (w w' : World σ) : Prop where
  /-- Array types and function types have been asked for. -/
  formed : w.types.Formed w'.types
  /-- No promises have been made, and instances show what they showed. -/
  conserves : w.heap.Conserves w'.heap
  /-- The second world is well typed. -/
  typed : w'.Typed base

namespace Typed

variable (hw : w.Typed base)
include hw

/-- Types fit together. -/
theorem coherent : w.types.Coherent := hw.program.toCoherent.formed hw.formed

/-- The built-in types are at their places. -/
theorem builtins : w.types.HasBuiltins :=
  hw.program.toHasBuiltins.extend hw.formed.grows.toExtends

/-- What members mention is registered. -/
theorem linked : w.types.Linked := hw.program.linked.formed hw.formed

/-- The built-in types are registered. -/
theorem builtin {ty : TypeId} (hty : ty.isBuiltin = true) : ty.index < w.types.size :=
  Nat.lt_of_lt_of_le (of_decide_eq_true hty) hw.builtins.size

/-- There are types. -/
theorem size_pos : 0 < w.types.size := Nat.lt_of_lt_of_le (by decide) hw.builtins.size

/-- `any` mentions no placeholder. -/
theorem concrete_any : w.types.Concrete .any := by
  refine hw.coherent.concrete_of_leaf (hw.builtin rfl) (.inl ?_)
  rw [Registry.kind, hw.builtins.definition rfl]
  rfl

/-- Nothing has changed. -/
theorem refl : w.Develops base w := ⟨.refl, .refl, hw⟩

/-- Array types and function types may be asked for. -/
theorem types {types : Registry} (hf : w.types.Formed types) : w.Develops base { w with types } :=
  ⟨hf, .refl, hw.program, hw.faithful, hw.formed.trans hf,
    hw.heap.registry hw.coherent hf.grows.toExtends.retains⟩

/-- The heap may be worked on, as long as types on it are in order. -/
theorem onHeap {heap : Heap} (hh : heap.Typed w.types) (hc : w.heap.Conserves heap) :
    w.Develops base { w with heap } :=
  ⟨.refl, hc, hw.program, hw.faithful, hw.formed, hh⟩

end Typed

namespace Develops

/-- Developments compose. -/
theorem trans (a : w.Develops base w') (b : w'.Develops base w'') : w.Develops base w'' :=
  ⟨a.formed.trans b.formed, a.conserves.trans b.conserves, b.typed⟩

/-- Developments are followed one after the other. -/
instance : IsTrans (World σ) (Develops base) := ⟨fun _ _ _ => trans⟩

/-- No type is dropped. -/
theorem size (h : w.Develops base w') : w.types.size ≤ w'.types.size :=
  h.formed.grows.toExtends.size

/-- What is registered stays registered. -/
theorem registered (h : w.Develops base w') {ty : TypeId} (hty : ty.index < w.types.size) :
    ty.index < w'.types.size :=
  Nat.lt_of_lt_of_le hty h.size

/-- Expressions go on mentioning registered types. -/
theorem typesBelow (h : w.Develops base w') {e : Expr} (he : e.TypesBelow w.types.size) :
    e.TypesBelow w'.types.size :=
  he.mono h.size

/-- Statements go on mentioning registered types. -/
theorem stmts (h : w.Develops base w') {stmts : List Stmt}
    (hstmts : ∀ stmt ∈ stmts, stmt.TypesBelow w.types.size) :
    ∀ stmt ∈ stmts, stmt.TypesBelow w'.types.size :=
  fun stmt hstmt => (hstmts stmt hstmt).mono h.size

/-- What mentions no placeholder goes on mentioning none. -/
theorem concrete (h : w.Develops base w') (hw : w.Typed base) {ty : TypeId}
    (hty : w.types.Concrete ty) : w'.types.Concrete ty :=
  hty.retained hw.coherent h.formed.grows.toExtends.retains

/-- What shows a type without placeholders goes on showing it. -/
theorem shows (h : w.Develops base w') (hw : w.Typed base) {id : InstanceId} {ty : TypeId}
    (hs : w.Shows id ty) : w'.Shows id ty where
  has := Nat.lt_of_lt_of_le hs.has h.conserves.instances
  shown := (h.conserves.shown hs.has).trans hs.shown
  concrete := h.concrete hw hs.concrete

end Develops

/-- What is found for an answer mentions registered types. -/
theorem Finds.typesBelow {id : InstanceId} {e : Expr} (h : w.Finds id e) (hw : w.Typed base) :
    e.TypesBelow w.types.size := by
  cases h with
  | literal value => exact Expr.typesBelow_scalar value
  | held h => exact hw.heap.cell h
  | absent =>
    refine Expr.typesBelow_missing.mpr ?_
    unfold Registry.element?
    split
    · rename_i element hk
      have hpart : element ∈ (w.types.kind (w.heap.get id).ty).parts := by
        rw [hk]
        exact List.mem_cons_self
      exact hw.coherent.parts_registered hpart
    · exact hw.builtin rfl
  | method m => exact Expr.typesBelow_function m id
  | text => exact Expr.typesBelow_hooked.mpr ⟨hw.builtin rfl, Expr.typesBelow_object id⟩

end World

/-! ## Steps in the world -/

/-- The step leads to a well-typed world, whether it fails or not, and answers something of which
`yields` holds there. -/
abbrev Upholds (base : Registry) (view : τ → World σ) (step : EStateM EvalError τ α) (s : τ)
    (yields : α → World σ → Prop) : Prop :=
  Moves (World.Develops base) view step s yields

namespace Upholds

variable {w : World σ}

/-- Allocating. -/
theorem onHeap (hw : w.Typed base) {step : Heap → α × Heap}
    (hh : (step w.heap).2.Typed w.types) (hc : w.heap.Conserves (step w.heap).2) :
    Upholds base id (Effect.onHeap step) w fun _ _ => True :=
  ⟨hw.onHeap hh hc, trivial⟩

/-- Changing the heap. -/
theorem modifyHeap (hw : w.Typed base) {f : Heap → Heap} (hh : (f w.heap).Typed w.types)
    (hc : w.heap.Conserves (f w.heap)) : Upholds base id (Effect.modifyHeap f) w fun _ _ => True :=
  ⟨hw.onHeap hh hc, trivial⟩

/-- Allocating a scope. -/
theorem allocScope (hw : w.Typed base) {sc : Scope}
    (hbindings : ∀ b ∈ sc.bindings, b.expr.TypesBelow w.types.size)
    (htypeArgs : ∀ entry ∈ sc.typeArgs, w.types.Concrete entry.2) :
    Upholds base id (Effect.onHeap (Heap.allocScope sc)) w fun _ _ => True :=
  onHeap hw (hw.heap.allocScope hbindings htypeArgs) (.of_instances_eq rfl rfl)

/-- Allocating an instance that carries data. -/
theorem allocValue (hw : w.Typed base) {ty : TypeId} {payload : Payload}
    (hty : ty.index < w.types.size) (hvalues : ∀ e ∈ payload.elements, e.TypesBelow w.types.size)
    (hshown : ∀ shown, (Instance.ofPayload ty payload).shown? = some shown →
      w.types.Concrete shown) :
    Upholds base id (Effect.allocValue ty payload) w fun _ _ => True :=
  onHeap hw (hw.heap.allocInstance (i := .ofPayload ty payload) hty hvalues
    fun shown hs => .inl (hshown shown hs)) (.allocInstance _)

/-- Allocating a constructor scope. -/
theorem constructorScope (hw : w.Typed base) {cls ty : TypeId} {receiver : InstanceId}
    {args : List Expr} (hargs : ∀ e ∈ args, e.TypesBelow w.types.size) :
    Upholds base id (Effect.constructorScope cls ty receiver args) w fun _ _ => True := by
  have hparams : ∀ b ∈ bindParams (w.types.definition ty).params args,
      b.expr.TypesBelow w.types.size := by
    intro b hb
    rcases expr_bindParams hb with harg | ⟨p, hp, hmissing⟩
    · exact hargs _ harg
    · rw [hmissing]
      exact Expr.typesBelow_missing.mpr ((hw.linked ty).params p hp)
  -- Methods are bound without a receiver, but their types are asked for.
  have hbind (names : List String) : Upholds base id (Effect.onTypes (bindMethods cls names)) w
      fun methods _ => ∀ b ∈ methods, ∃ m, b.expr = .unbound m :=
    ⟨hw.types (hw.linked.bindMethods hw.size_pos cls names), (Registry.bindMethods_spec _ _ _).1⟩
  refine .read_bind ((hbind _).bind fun methods w' hd hmethods => ?_)
  refine allocScope hd.typed (fun b hb => ?_) fun entry hentry => by cases hentry
  rcases List.mem_append.mp hb with hb | hb
  · exact hd.typesBelow (hparams b hb)
  · obtain ⟨m, hm⟩ := hmethods b hb
    rw [hm]
    exact Expr.typesBelow_unbound m

/-- Allocating the constructor scopes of a lineage. -/
theorem constructorScopes {cls : TypeId} {receiver : InstanceId} (lineage : List TypeId)
    {args : List Expr} (hw : w.Typed base) (hargs : ∀ e ∈ args, e.TypesBelow w.types.size) :
    Upholds base id (Effect.constructorScopes cls receiver lineage args) w fun _ _ => True := by
  induction lineage generalizing w args with
  | nil => exact .pure hw.refl trivial
  | cons ty rest ih =>
    refine (constructorScope hw hargs).bind fun scope w₁ hd₁ _ => .read_bind ?_
    refine .bind (ih hd₁.typed fun e he => ?_) fun scopes w₂ hd₂ _ => .pure hd₂.typed.refl trivial
    obtain ⟨arg, harg, rfl⟩ := List.mem_map.mp he
    exact Expr.typesBelow_scoped.mpr
      ((hd₁.typed.linked ty).exprs arg (TypeDef.parentArg_mem_exprs harg))

end Upholds

/-- The slots that a new instance starts with mention registered types. -/
theorem World.Typed.initialSlots {w : World σ} (hw : w.Typed base) {native : Bool} {id : InstanceId}
    {scopes : List (TypeId × ScopeId)} {s : Slot}
    (hs : s ∈ ObjectGraph.initialSlots w.types native id scopes) :
    s.expr.TypesBelow w.types.size := by
  obtain ⟨entry, -, p, hp, rfl⟩ := mem_initialSlots hs
  have hty := (hw.linked entry.1).properties p hp
  rw [initialSlot]
  cases hinit : p.initializer with
  | some init =>
    exact Expr.typesBelow_scoped.mpr
      ((hw.linked entry.1).exprs init (TypeDef.initializer_mem_exprs hp hinit))
  | none =>
    cases native with
    | true => exact Expr.typesBelow_member.mpr ⟨hty, Expr.typesBelow_object id⟩
    | false => exact Expr.typesBelow_missing.mpr hty

namespace Upholds

/-- Building an instance. -/
theorem construct (natives : Natives σ) {w : World σ} (hw : w.Typed base) {cls : TypeId}
    (hcls : cls.index < w.types.size) {args : List Expr}
    (hargs : ∀ e ∈ args, e.TypesBelow w.types.size) :
    Upholds base id (Effect.construct natives cls args) w fun _ _ => True := by
  let i : Instance := { ty := cls, payload := .none, scopes := [], sealed := false, slots := [] }
  have halloc : Upholds base id (Effect.onHeap (Heap.allocInstance i)) w fun _ _ => True :=
    onHeap hw (hw.heap.allocInstance hcls (fun e he => by cases he) fun ty hty => by cases hty)
      (.allocInstance i)
  -- The instance is on the heap before its scopes are, and gets its members last.
  refine halloc.bind fun new w₁ hd₁ _ => .read_bind ?_
  refine (constructorScopes _ hd₁.typed fun e he => hd₁.typesBelow (hargs e he)).bind
    fun scopes w₂ hd₂ _ => .read_bind ?_
  refine (modifyHeap hd₂.typed ?_ ?_).bind fun _ w₃ hd₃ _ => .pure hd₃.typed.refl trivial
  · exact hd₂.typed.heap.setMembers new fun s hs => hd₂.typed.initialSlots hs
  · exact .modifyInstance new fun _ => rfl

end Upholds

end ObjectGraph
