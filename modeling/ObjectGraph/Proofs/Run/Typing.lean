import ObjectGraph.Proofs.Run.Developing
import ObjectGraph.Proofs.Run.Limits

/-!
# Types during a pass

A pass over an expression with registered types leads from a well-typed world to another, whether it
fails or not, and leaves an expression with registered types (`Expr.leaves`).

What carries this through calls is that a method is entered with the caller's generic arguments
made concrete, so that the arguments of a scope are free of placeholders before anything is looked
up in it. From then on the scope may be left and its body may move elsewhere: what is put in place
of a placeholder is an argument of some scope, or `any`.
-/

namespace ObjectGraph

variable {σ α β : Type} {base : Registry} {natives : Natives σ} {s : Pass σ}
variable {scope : Option ScopeId}

/-- The step leads to a well-typed world and leaves an expression with registered types. -/
abbrev Leaves (base : Registry) (step : Reduction σ Expr) (s : Pass σ) : Prop :=
  Upholds base Pass.world step s fun e w => e.TypesBelow w.types.size

namespace Upholds

/-- Making a type concrete. -/
theorem concrete (hw : s.world.Typed base) {own : TypeArgs}
    (hown : ∀ entry ∈ own, s.world.types.Concrete entry.2) {ty : TypeId}
    (hty : ty.index < s.world.types.size) :
    Upholds base Pass.world (Reduction.concrete scope own ty) s
      fun ty w => w.types.Concrete ty := by
  refine .look_bind (.perform ?_)
  -- A placeholder is replaced by an argument of the call, by one that the scope sees, or by `any`.
  have hvalues (param : TypeId) : s.world.types.Concrete
      (((own.lookup param).or (scope.bind (s.world.heap.typeArg? · param))).getD .any) := by
    cases hfound : own.lookup param with
    | some value =>
      obtain ⟨before, after, hsplit, -⟩ := List.lookup_eq_some_iff.mp hfound
      exact hown (param, value) (by rw [hsplit]; simp)
    | none =>
      cases hseen : scope.bind (s.world.heap.typeArg? · param) with
      | some value =>
        obtain ⟨t, -, ht⟩ := Option.bind_eq_some_iff.mp hseen
        exact hw.heap.typeArg? ht
      | none => exact hw.concrete_any
  obtain ⟨hformed, hconcrete⟩ :=
    hw.program.substitute_concrete hw.faithful hw.formed hvalues hty
  exact ⟨hw.types hformed, hconcrete⟩

/-- Making a type concrete by the arguments of the scope alone. -/
theorem concrete_scope (hw : s.world.Typed base) {ty : TypeId}
    (hty : ty.index < s.world.types.size) :
    Upholds base Pass.world (Reduction.concrete scope [] ty) s fun ty w => w.types.Concrete ty :=
  concrete hw (fun entry hentry => by cases hentry) hty

/-- Making generic arguments concrete. -/
theorem concreteArgs {typeArgs : TypeArgs} (hw : s.world.Typed base)
    (htypeArgs : ∀ arg ∈ typeArgs, arg.2.index < s.world.types.size) :
    Upholds base Pass.world (Reduction.concreteArgs scope typeArgs) s
      fun args w => ∀ arg ∈ args, w.types.Concrete arg.2 := by
  induction typeArgs generalizing s with
  | nil => exact .pure hw.refl fun arg harg => by cases harg
  | cons first rest ih =>
    obtain ⟨hfirst, hrest⟩ := List.forall_mem_cons.mp htypeArgs
    refine (concrete_scope hw hfirst).bind fun ty s₁ hd₁ hty => ?_
    refine (ih hd₁.typed fun arg harg => hd₁.registered (hrest arg harg)).bind
      fun args s₂ hd₂ hargs => .pure hd₂.typed.refl ?_
    exact List.forall_mem_cons.mpr ⟨hd₂.concrete hd₁.typed hty, hargs⟩

/-- Binding the parameters of a method. -/
theorem bindArgs {typeArgs : TypeArgs} {params : List Param} {args : List Expr}
    (hw : s.world.Typed base) (htypeArgs : ∀ arg ∈ typeArgs, s.world.types.Concrete arg.2)
    (hparams : ∀ p ∈ params, p.ty.index < s.world.types.size)
    (hargs : ∀ e ∈ args, e.TypesBelow s.world.types.size) :
    Upholds base Pass.world (Reduction.bindArgs scope typeArgs params args) s
      fun bindings w => ∀ b ∈ bindings, b.expr.TypesBelow w.types.size := by
  induction params generalizing s args with
  | nil => exact .pure hw.refl fun b hb => by cases hb
  | cons p ps ih =>
    obtain ⟨hp, hps⟩ := List.forall_mem_cons.mp hparams
    cases args with
    | nil =>
      refine (concrete hw htypeArgs hp).bind fun ty s₁ hd₁ hty => ?_
      refine (ih hd₁.typed (fun arg harg => hd₁.concrete hw (htypeArgs arg harg))
        (fun p hp => hd₁.registered (hps p hp)) fun e he => by cases he).bind
        fun bindings s₂ hd₂ hb => .pure hd₂.typed.refl ?_
      exact List.forall_mem_cons.mpr
        ⟨Expr.typesBelow_missing.mpr (hd₂.registered hty.registered), hb⟩
    | cons arg args =>
      obtain ⟨harg, hargs⟩ := List.forall_mem_cons.mp hargs
      refine (ih hw htypeArgs hps hargs).bind fun bindings s₁ hd₁ hb => .pure hd₁.typed.refl ?_
      exact List.forall_mem_cons.mpr ⟨hd₁.typesBelow (Expr.typesBelow_closeOver.mpr harg), hb⟩

end Upholds

namespace Leaves

/-! ## Leaves -/

/-- Keeping an expression as it is. -/
theorem keep (hw : s.world.Typed base) {e : Expr} (he : e.TypesBelow s.world.types.size) :
    Leaves base (pure e) s :=
  Moves.pure hw.refl he

/-- Putting another expression in place. -/
theorem become (hw : s.world.Typed base) {e : Expr} (he : e.TypesBelow s.world.types.size) :
    Leaves base (Reduction.become e) s :=
  Moves.become hw.refl he

/-- A failure. -/
theorem throw (hw : s.world.Typed base) {e : EvalError} :
    Leaves base (throw e : Reduction σ Expr) s :=
  Moves.throw hw.refl

/-- An instance that a step in the world makes. -/
theorem object {action : Effect σ InstanceId}
    (h : Upholds base id action s.world fun _ _ => True) :
    Leaves base (do Reduction.become (.object (← Reduction.perform action))) s :=
  h.perform.bind fun id _ hd _ => become hd.typed (Expr.typesBelow_object id)

/-- A literal. -/
theorem scalar (hw : s.world.Typed base) (value : Scalar) :
    Leaves base (Reduction.scalar value) s :=
  object (.allocValue hw (Nat.lt_of_lt_of_le value.ty_lt hw.builtins.size)
    (fun e he => by cases he) fun ty hty => by cases hty)

/-- The receiver. -/
theorem this (hw : s.world.Typed base) : Leaves base (Reduction.this scope) s := by
  refine .look_bind ?_
  split
  · exact become hw (Expr.typesBelow_object _)
  · exact throw hw

/-- A name. -/
theorem name (hw : s.world.Typed base) {e : Expr} (he : e.TypesBelow s.world.types.size)
    (n : String) : Leaves base (Reduction.name scope e n) s := by
  refine .look_bind ?_
  split
  · exact throw hw
  · refine .look_bind ?_
    split
    · refine .look_bind ?_
      split
      · exact become hw (Expr.typesBelow_function _ _)
      · exact throw hw
    · rename_i bound _ hbound
      split
      · exact become hw (hw.heap.cell hbound)
      · exact keep hw he
    · exact keep hw he

/-! ## Members and operators -/

/-- A plugin's answer, if there is one. -/
theorem answer (hw : s.world.Typed base) {kept : Expr}
    (hkept : kept.TypesBelow s.world.types.size) {action : Effect σ (Option Expr)}
    {subject : InstanceId} (h : AnswersAbout action s.world subject) :
    Leaves base (do Reduction.answerOr kept (← Reduction.perform action)) s := by
  have hmoves : Upholds base id action s.world
      fun answer w => ∀ e, answer = some e → e.TypesBelow w.types.size :=
    h.moves hw.refl fun _ hanswer e he => (hanswer e he).typesBelow hw
  refine hmoves.perform.bind fun answer s₁ hd hanswer => ?_
  cases answer with
  | none => exact keep hd.typed (hd.typesBelow hkept)
  | some e => exact become hd.typed (hanswer e rfl)

/-- A member. -/
theorem member (hn : natives.Reads) (hw : s.world.Typed base) {object : Expr}
    (hobject : object.TypesBelow s.world.types.size) (name : String) {ty : TypeId}
    (hty : ty.index < s.world.types.size) :
    Leaves base (Reduction.member natives object name ty) s := by
  have hkept : (Expr.member object name ty).TypesBelow s.world.types.size :=
    Expr.typesBelow_member.mpr ⟨hty, hobject⟩
  unfold Reduction.member
  split
  · exact become hw (Expr.typesBelow_missing.mpr hty)
  · exact .plugin_bind (answer hw hkept (hn.pluginFor _ _).property)
  · exact keep hw hkept

/-- An element. -/
theorem index (hn : natives.Reads) (hw : s.world.Typed base) {object position : Expr}
    (hobject : object.TypesBelow s.world.types.size)
    (hposition : position.TypesBelow s.world.types.size) {ty : TypeId}
    (hty : ty.index < s.world.types.size) :
    Leaves base (Reduction.index natives object position ty) s := by
  have hkept := Expr.typesBelow_index.mpr ⟨hty, hobject, hposition⟩
  unfold Reduction.index
  split
  · exact become hw (Expr.typesBelow_missing.mpr hty)
  · exact become hw (Expr.typesBelow_missing.mpr hty)
  · exact .plugin_bind (answer hw hkept (hn.pluginFor _ _).element)
  · exact keep hw hkept

/-- A binary operation. -/
theorem binary (hn : natives.Reads) (hw : s.world.Typed base) {lhs rhs : Expr}
    (hlhs : lhs.TypesBelow s.world.types.size) (hrhs : rhs.TypesBelow s.world.types.size)
    (op : BinaryOp) {ty : TypeId} (hty : ty.index < s.world.types.size) :
    Leaves base (Reduction.binary natives op lhs rhs ty) s := by
  have hkept : (Expr.binary op lhs rhs ty).TypesBelow s.world.types.size :=
    Expr.typesBelow_binary.mpr ⟨hty, hlhs, hrhs⟩
  unfold Reduction.binary
  split
  · exact become hw (Expr.typesBelow_missing.mpr hty)
  · exact become hw (Expr.typesBelow_missing.mpr hty)
  · refine .look_bind (.look_bind ?_)
    dsimp only
    split
    · exact .look_bind (throw hw)
    · exact .plugin_bind (answer hw hkept (hn.pluginFor _ _).operator)
  · exact keep hw hkept

/-- A unary operation. -/
theorem unary (hn : natives.Reads) (hw : s.world.Typed base) {operand : Expr}
    (hoperand : operand.TypesBelow s.world.types.size) (op : UnaryOp) {ty : TypeId}
    (hty : ty.index < s.world.types.size) :
    Leaves base (Reduction.unary natives op operand ty) s := by
  have hkept : (Expr.unary op operand ty).TypesBelow s.world.types.size :=
    Expr.typesBelow_unary.mpr ⟨hty, hoperand⟩
  unfold Reduction.unary
  split
  · exact become hw (Expr.typesBelow_missing.mpr hty)
  · exact .plugin_bind (answer hw hkept (hn.pluginFor _ _).operator)
  · exact keep hw hkept

/-! ## Construction and calls -/

/-- Construction. -/
theorem new (hw : s.world.Typed base) {args : List Expr}
    (hargs : ∀ e ∈ args, e.TypesBelow s.world.types.size) {cls : TypeId}
    (hcls : cls.index < s.world.types.size) :
    Leaves base (Reduction.new natives scope cls args) s := by
  refine object (.construct natives hw hcls fun e he => ?_)
  obtain ⟨arg, harg, rfl⟩ := List.mem_map.mp he
  exact Expr.typesBelow_closeOver.mpr (hargs arg harg)

/-- Entering a method's body. The arguments of its scope have been made concrete. -/
theorem enter (hw : s.world.Typed base) {m : MethodRef} {receiver : InstanceId} {body : Body}
    (hbody : (Expr.block body.stmts body.result).TypesBelow s.world.types.size) {args : List Expr}
    (hargs : ∀ e ∈ args, e.TypesBelow s.world.types.size) {typeArgs : TypeArgs}
    (htypeArgs : ∀ arg ∈ typeArgs, arg.2.index < s.world.types.size) :
    Leaves base
      (Reduction.enter scope m receiver (s.world.types.method m) body args typeArgs) s := by
  refine .look_bind ?_
  split
  · exact .look_bind (.look_bind (throw hw))
  · -- The arguments are made concrete by the caller's scope, before there is one for the call.
    refine (Upholds.concreteArgs hw htypeArgs).bind fun typeArgs s₁ hd₁ htypeArgs => ?_
    have hparams := (hw.linked.method hw.size_pos m).2
    refine (Upholds.bindArgs hd₁.typed htypeArgs (fun p hp => hd₁.registered (hparams p hp))
      fun e he => hd₁.typesBelow (hargs e he)).bind fun bindings s₂ hd₂ hbindings => ?_
    refine (Upholds.allocScope hd₂.typed hbindings fun arg harg =>
      hd₂.concrete hd₁.typed (htypeArgs arg harg)).perform.bind fun inner s₃ hd₃ _ => ?_
    exact become hd₃.typed
      (Expr.typesBelow_scoped.mpr ((hd₁.trans (hd₂.trans hd₃)).typesBelow hbody))

/-- A call. -/
theorem call (hn : natives.Reads) (hw : s.world.Typed base) {callee : Expr} {args : List Expr}
    {typeArgs : TypeArgs} {ty : TypeId}
    (hcall : (Expr.call callee args typeArgs ty).TypesBelow s.world.types.size) :
    Leaves base (Reduction.call natives scope callee args typeArgs ty) s := by
  obtain ⟨⟨hty, htypeArgs⟩, -, hargs⟩ := Expr.typesBelow_call.mp hcall
  unfold Reduction.call
  split
  · exact become hw (Expr.typesBelow_missing.mpr hty)
  · rename_i m receiver
    refine .look_bind ?_
    split
    · rename_i body hbody
      exact enter hw ((hw.linked m.owner).exprs _ (Registry.body_mem_exprs hbody)) hargs htypeArgs
    · have hmoves : Upholds base id ((natives.pluginFor s.world.types m.owner).call receiver m args)
          s.world fun outcome w => ∀ e, outcome = .produced e → e.TypesBelow w.types.size :=
        (hn.pluginFor _ _).call.moves hw.refl fun _ houtcome e he => (houtcome e he).typesBelow hw
      refine .look_bind (hmoves.perform.bind fun outcome s₁ hd houtcome => ?_)
      cases outcome with
      | produced result => exact become hd.typed (houtcome result rfl)
      | deferred => exact keep hd.typed (hd.typesBelow hcall)
  · exact keep hw hcall

/-- A hook's answer. -/
theorem hooked (hn : natives.Reads) (hw : s.world.Typed base) {operand : Expr}
    (hoperand : operand.TypesBelow s.world.types.size) (hook : HookId) {ty : TypeId}
    (hty : ty.index < s.world.types.size) :
    Leaves base (Reduction.hooked natives operand hook ty) s := by
  unfold Reduction.hooked
  split
  · exact become hw (Expr.typesBelow_missing.mpr hty)
  · rename_i subject
    split
    · rename_i callback hcallback
      have hmoves : Upholds base id (callback subject) s.world
          fun e w => e.TypesBelow w.types.size :=
        (hn.hooks callback (List.mem_of_getElem? hcallback)).moves hw.refl
          fun _ he => he.typesBelow hw
      exact hmoves.perform.bind fun e s₁ hd he => become hd.typed he
    · exact throw hw
  · exact keep hw (Expr.typesBelow_hooked.mpr ⟨hty, hoperand⟩)

/-- A promise. -/
theorem promise (hw : s.world.Typed base) (id : PromiseId) {ty : TypeId}
    (hty : ty.index < s.world.types.size) : Leaves base (Reduction.promise id ty) s := by
  obtain ⟨hheap, hyields⟩ := hw.heap.readPromise id
  have hd := hw.onHeap hheap (.readPromise _ id)
  unfold Leaves Upholds Moves Ends
  rw [Reduction.promise_apply]
  cases hread : (s.world.heap.readPromise id).1 with
  | waits => exact ⟨hd, Expr.typesBelow_promise.mpr hty⟩
  | yields node => exact ⟨hd, hyields node hread⟩
  | fails message => exact hd

/-! ## Scopes and bodies -/

/-- Leaving a scope behind. -/
theorem leave (hw : s.world.Typed base) (inner : ScopeId) {body : Expr}
    (hbody : body.TypesBelow s.world.types.size) (before : ℕ) :
    Leaves base (Reduction.leave inner before body) s := by
  have hjoin (free : Bool) : Leaves base (if body.isTerminal || free then Reduction.become body
      else pure (.scoped inner body)) s := by
    split
    · exact become hw hbody
    · exact keep hw (Expr.typesBelow_scoped.mpr hbody)
  refine .count_bind ?_
  dsimp only
  split
  · exact .look_bind (hjoin _)
  · exact hjoin _

/-- Falling off the end of a body. -/
theorem fallOff (hw : s.world.Typed base) {result : TypeId}
    (hresult : result.index < s.world.types.size) :
    Leaves base (Reduction.fallOff scope result) s :=
  (Upholds.concrete_scope hw hresult).bind fun _ _ hd hty =>
    become hd.typed (Expr.typesBelow_missing.mpr hty.registered)

/-- A declaration. -/
theorem declare (hw : s.world.Typed base) {init : Expr} {rest : List Stmt} {result : TypeId}
    (hinit : init.TypesBelow s.world.types.size)
    (hrest : (Expr.block rest result).TypesBelow s.world.types.size) (name : String) (ty : TypeId) :
    Leaves base (Reduction.declare scope name ty init rest result) s := by
  refine (Upholds.allocScope hw (fun b hb => ?_) fun entry hentry => by cases hentry).perform.bind
    fun inner s₁ hd _ => become hd.typed (Expr.typesBelow_scoped.mpr (hd.typesBelow hrest))
  obtain rfl := List.mem_singleton.mp hb
  exact Expr.typesBelow_closeOver.mpr hinit

/-- An assignment. -/
theorem assign (hw : s.world.Typed base) {value : Expr} {rest : List Stmt} {result : TypeId}
    (hvalue : value.TypesBelow s.world.types.size)
    (hrest : (Expr.block rest result).TypesBelow s.world.types.size) (name : String) :
    Leaves base (Reduction.assign scope name value rest result) s := by
  unfold Reduction.assign
  split
  · refine .look_bind ?_
    split
    · exact (Upholds.modifyHeap hw (hw.heap.write _ hvalue) (.write _ _)).perform.bind
        fun _ s₁ hd _ => become hd.typed (hd.typesBelow hrest)
    · exact throw hw
  · obtain ⟨hresult, hrest⟩ := Expr.typesBelow_block.mp hrest
    refine keep hw (Expr.typesBelow_block.mpr ⟨hresult, List.forall_mem_cons.mpr ⟨?_, hrest⟩⟩)
    exact Stmt.typesBelow_assign.mpr hvalue

/-- A branch. -/
theorem branch (hw : s.world.Typed base) {cond : Expr} {whenTrue whenFalse rest : List Stmt}
    {result : TypeId} (hcond : cond.TypesBelow s.world.types.size)
    (htrue : ∀ stmt ∈ whenTrue, stmt.TypesBelow s.world.types.size)
    (hfalse : ∀ stmt ∈ whenFalse, stmt.TypesBelow s.world.types.size)
    (hrest : (Expr.block rest result).TypesBelow s.world.types.size) :
    Leaves base (Reduction.branch cond whenTrue whenFalse rest result) s := by
  obtain ⟨hresult, hrest⟩ := Expr.typesBelow_block.mp hrest
  unfold Reduction.branch
  split
  · exact become hw
      (Expr.typesBelow_block.mpr ⟨hresult, List.forall_mem_append.mpr ⟨hfalse, hrest⟩⟩)
  · refine .look_bind ?_
    split
    · rename_i taken _
      refine become hw
        (Expr.typesBelow_block.mpr ⟨hresult, List.forall_mem_append.mpr ⟨?_, hrest⟩⟩)
      cases taken with
      | true => exact htrue
      | false => exact hfalse
    · exact .perform (Asks.moves .invalidPayload hw.refl fun e he => he)
  · refine keep hw
      (Expr.typesBelow_block.mpr ⟨hresult, List.forall_mem_cons.mpr ⟨?_, hrest⟩⟩)
    exact Stmt.typesBelow_branch.mpr ⟨hcond, htrue, hfalse⟩

/-- A look at whether a left operand decides. -/
theorem shortCircuit (hw : s.world.Typed base) (op : BinaryOp) (lhs : Expr) :
    Upholds base Pass.world (Reduction.shortCircuit op lhs) s fun _ _ => True := by
  unfold Reduction.shortCircuit
  split
  · refine .look_bind ?_
    split
    · exact .pure hw.refl trivial
    · exact .pure hw.refl trivial
    · exact .pure hw.refl trivial
  · exact .pure hw.refl trivial

end Leaves

/-! ## Array literals and reflections -/

/-- The expressions that make values which show types: array literals and reflections. -/
inductive Expr.IsShowing : Expr → Prop
  /-- An array literal. -/
  | array (elements : List Expr) (ty : TypeId) : IsShowing (.array elements ty)
  /-- A reflection. -/
  | typeOf (operand : Expr) (ty : TypeId) : IsShowing (.unary .typeOf operand ty)

/-- The step cannot fail. It leads to a well-typed world, and leaves an instance there that shows a
type without placeholders. -/
def Exhibits (base : Registry) (step : Reduction σ Expr) (s : Pass σ) : Prop :=
  Ends step s (fun e s' => s.world.Develops base s'.world ∧
    ∃ id ty, e = .object id ∧ s'.world.Shows id ty) fun _ _ => False

namespace Exhibits

/-- Such a step leaves an expression with registered types. -/
theorem leaves {step : Reduction σ Expr} (h : Exhibits base step s) : Leaves base step s := by
  refine Ends.mono h (fun e s' he => ⟨he.1, ?_⟩) fun _ _ hf => hf.elim
  obtain ⟨-, id, ty, rfl, -⟩ := he
  exact Expr.typesBelow_object id

/-- A type is made concrete, and an instance that shows it is put on the heap. -/
theorem make (scope : Option ScopeId) (hw : s.world.Typed base) {ty : TypeId}
    (hty : ty.index < s.world.types.size) {i : TypeId → Instance}
    (hi : ∀ {w : World σ} {ty}, s.world.Develops base w → w.types.Concrete ty →
      (i ty).ty.index < w.types.size ∧ (∀ e ∈ (i ty).values, e.TypesBelow w.types.size) ∧
        (i ty).shown? = some ty) :
    Exhibits base (do
      let ty ← Reduction.concrete scope [] ty
      let action := Effect.onHeap (Heap.allocInstance (i ty))
      Reduction.become (.object (← Reduction.perform action))) s := by
  obtain ⟨concrete, s₁, hok⟩ : ∃ concrete s₁,
    Reduction.concrete scope [] ty s = .ok concrete s₁ := ⟨_, _, rfl⟩
  obtain ⟨hd, hconcrete⟩ := (Upholds.concrete_scope hw hty).ok hok
  obtain ⟨hregistered, hvalues, hshown⟩ := hi hd hconcrete
  have hheap : (s₁.world.heap.allocInstance (i concrete)).2.Typed s₁.world.types := by
    refine hd.typed.heap.allocInstance hregistered hvalues fun ty hty => .inl ?_
    obtain rfl := Option.some.inj (hshown.symm.trans hty)
    exact hconcrete
  refine Ends.bind (Ends.of_ok hok (Ends.of_ok rfl ⟨?_, ⟨s₁.world.heap.instances.size⟩, concrete,
    rfl, ?_, ?_, hconcrete⟩))
  · exact hd.trans (hd.typed.onHeap hheap (.allocInstance _))
  · show s₁.world.heap.instances.size < (s₁.world.heap.instances.push _).size
    rw [Array.size_push]
    exact Nat.lt_succ_self _
  · show ((s₁.world.heap.allocInstance (i concrete)).2.get _).shown? = _
    rw [Heap.get_allocInstance, if_pos rfl]
    exact hshown

/-- An array literal. Its type is made concrete. -/
theorem array (hw : s.world.Typed base) {es : List Expr}
    (hes : ∀ e ∈ es, e.TypesBelow s.world.types.size) {ty : TypeId}
    (hty : ty.index < s.world.types.size) : Exhibits base (Reduction.array scope es ty) s := by
  refine make scope hw hty (i := fun ty => .ofPayload ty (.array (es.map (·.closeOver scope))))
    fun hd hconcrete => ⟨hconcrete.registered, fun e he => ?_, rfl⟩
  obtain ⟨t, ht, rfl⟩ := List.mem_map.mp he
  exact Expr.typesBelow_closeOver.mpr (hd.typesBelow (hes t ht))

/-- A reflection. However the type is found, it is made concrete. -/
theorem reflect (hw : s.world.Typed base) {operand : Expr}
    (hoperand : operand.TypesBelow s.world.types.size) :
    Exhibits base (Reduction.reflect scope operand) s := by
  have hmake {ty : TypeId} (hty : ty.index < s.world.types.size) :=
    make scope hw hty (i := fun ty => .ofPayload .type (.type ty))
      fun hd _ => ⟨hd.typed.builtin rfl, fun e he => (by cases he), rfl⟩
  unfold Reduction.reflect
  dsimp only
  split
  · exact hmake (hw.heap.instances _)
  · refine hmake ?_
    cases hdeclared : operand.declaredTy with
    | some ty => exact hoperand.declaredTy hw.builtins.size ty hdeclared
    | none => exact hw.builtin rfl

end Exhibits

/-- Array literals and reflections leave values that show types without placeholders. -/
theorem Expr.IsShowing.exhibits {e : Expr} (h : e.IsShowing) (natives : Natives σ)
    (scope : Option ScopeId) (hw : s.world.Typed base) (he : e.TypesBelow s.world.types.size) :
    Exhibits base (e.reduce natives scope) s := by
  cases h with
  | array elements ty =>
    obtain ⟨hty, helements⟩ := Expr.typesBelow_array.mp he
    rw [Expr.reduce]
    exact .array hw helements hty
  | typeOf operand ty =>
    rw [Expr.reduce]
    exact .reflect hw (Expr.typesBelow_unary.mp he).2

/-! ## One pass -/

mutual

/-- **A pass leads from a well-typed world to another**, and what it leaves mentions registered
types. -/
theorem Expr.leaves (hn : natives.Reads) (scope : Option ScopeId) : ∀ (e : Expr) {s : Pass σ},
    s.world.Typed base → e.TypesBelow s.world.types.size → Leaves base (e.reduce natives scope) s
  | .scalar value, s, hw, _ => by
    rw [Expr.reduce]
    exact .scalar hw value
  | .array elements ty, s, hw, he =>
    ((Expr.IsShowing.array elements ty).exhibits natives scope hw he).leaves
  | .this ty, s, hw, _ => by
    rw [Expr.reduce]
    exact .this hw
  | .param n ty, s, hw, he => by
    rw [Expr.reduce]
    exact .name hw he n
  | .variable n ty, s, hw, he => by
    rw [Expr.reduce]
    exact .name hw he n
  | .member object name ty, s, hw, he => by
    obtain ⟨hty, hobject⟩ := Expr.typesBelow_member.mp he
    rw [Expr.reduce]
    exact (object.leaves hn scope hw hobject).bind fun _ _ hd h =>
      Leaves.member hn hd.typed h name (hd.registered hty)
  | .index object position ty, s, hw, he => by
    obtain ⟨hty, hobject, hposition⟩ := Expr.typesBelow_index.mp he
    rw [Expr.reduce]
    refine (object.leaves hn scope hw hobject).bind fun _ _ hd₁ h₁ => ?_
    refine (position.leaves hn scope hd₁.typed (hd₁.typesBelow hposition)).bind
      fun _ _ hd₂ h₂ => ?_
    exact Leaves.index hn hd₂.typed (hd₂.typesBelow h₁) h₂ ((hd₁.trans hd₂).registered hty)
  | .binary op lhs rhs ty, s, hw, he => by
    obtain ⟨hty, hlhs, hrhs⟩ := Expr.typesBelow_binary.mp he
    rw [Expr.reduce]
    refine (lhs.leaves hn scope hw hlhs).bind fun lhs' _ hd₁ h₁ => ?_
    refine (Leaves.shortCircuit hd₁.typed op lhs').bind fun decided _ hd₂ _ => ?_
    have hd := hd₁.trans hd₂
    cases decided with
    | some decided => exact Leaves.become hd₂.typed (Expr.typesBelow_scalar _)
    | none =>
      -- The right operand gets its pass in the world that the left one has left behind.
      refine (rhs.leaves hn scope hd.typed (hd.typesBelow hrhs)).bind fun _ _ hd₃ h₃ => ?_
      exact Leaves.binary hn hd₃.typed ((hd₂.trans hd₃).typesBelow h₁) h₃ op
        ((hd.trans hd₃).registered hty)
  | .unary op operand ty, s, hw, he => by
    obtain ⟨hty, hoperand⟩ := Expr.typesBelow_unary.mp he
    by_cases hop : op = .typeOf
    · subst hop
      exact ((Expr.IsShowing.typeOf operand ty).exhibits natives scope hw he).leaves
    · rw [Expr.reduce]
      · exact (operand.leaves hn scope hw hoperand).bind fun _ _ hd h =>
          Leaves.unary hn hd.typed h op (hd.registered hty)
      · exact hop
  | .new cls args, s, hw, he => by
    obtain ⟨hcls, hargs⟩ := Expr.typesBelow_new.mp he
    rw [Expr.reduce]
    exact .new hw hargs hcls
  | .call callee args typeArgs ty, s, hw, he => by
    obtain ⟨⟨hty, htypeArgs⟩, hcallee, hargs⟩ := Expr.typesBelow_call.mp he
    rw [Expr.reduce]
    refine (callee.leaves hn scope hw hcallee).bind fun _ _ hd₁ h₁ => ?_
    refine (leavesAll hn scope args hd₁.typed fun e he => hd₁.typesBelow (hargs e he)).bind
      fun _ _ hd₂ h₂ => Leaves.call hn hd₂.typed (Expr.typesBelow_call.mpr ?_)
    have hd := hd₁.trans hd₂
    exact ⟨⟨hd.registered hty, fun arg harg => hd.registered (htypeArgs arg harg)⟩,
      hd₂.typesBelow h₁, h₂⟩
  | .hooked operand hook ty, s, hw, he => by
    obtain ⟨hty, hoperand⟩ := Expr.typesBelow_hooked.mp he
    rw [Expr.reduce]
    exact (operand.leaves hn scope hw hoperand).bind fun _ _ hd h =>
      Leaves.hooked hn hd.typed h hook (hd.registered hty)
  | .promise id ty, s, hw, he => by
    rw [Expr.reduce]
    exact .promise hw id (Expr.typesBelow_promise.mp he)
  | .scoped inner body, s, hw, he => by
    rw [Expr.reduce]
    exact .count_bind ((body.leaves hn (some inner) hw (Expr.typesBelow_scoped.mp he)).bind
      fun _ _ hd h => Leaves.leave hd.typed inner h s.reductions)
  | .block stmts result, s, hw, he => by
    obtain ⟨hresult, hstmts⟩ := Expr.typesBelow_block.mp he
    rw [Expr.reduce]
    exact leavesBody hn scope stmts hw hstmts hresult
  | .object id, s, hw, he => by
    rw [Expr.reduce]
    exact .keep hw he
  | .missing ty, s, hw, he => by
    rw [Expr.reduce]
    exact .keep hw he
  | .unbound method, s, hw, he => by
    rw [Expr.reduce]
    exact .keep hw he
  | .function method receiver, s, hw, he => by
    rw [Expr.reduce]
    exact .keep hw he

/-- A pass over each expression of a list. -/
theorem leavesAll (hn : natives.Reads) (scope : Option ScopeId) : ∀ (es : List Expr) {s : Pass σ},
    s.world.Typed base → (∀ e ∈ es, e.TypesBelow s.world.types.size) →
    Upholds base Pass.world (reduceAll natives scope es) s
      fun es' w => ∀ e ∈ es', e.TypesBelow w.types.size
  | [], s, hw, _ => by
    rw [reduceAll]
    exact .pure hw.refl fun e he => by cases he
  | e :: es, s, hw, hes => by
    obtain ⟨he, hes⟩ := List.forall_mem_cons.mp hes
    rw [reduceAll]
    refine (e.leaves hn scope hw he).bind fun e' s₁ hd₁ h₁ => ?_
    refine (leavesAll hn scope es hd₁.typed fun e he => hd₁.typesBelow (hes e he)).bind
      fun es' s₂ hd₂ h₂ => .pure hd₂.typed.refl ?_
    exact List.forall_mem_cons.mpr ⟨hd₂.typesBelow h₁, h₂⟩

/-- A pass over a body. -/
theorem leavesBody (hn : natives.Reads) (scope : Option ScopeId) : ∀ (stmts : List Stmt)
    {s : Pass σ}, s.world.Typed base → (∀ stmt ∈ stmts, stmt.TypesBelow s.world.types.size) →
    ∀ {result : TypeId}, result.index < s.world.types.size →
    Leaves base (reduceBody natives scope result stmts) s
  | [], s, hw, _, result, hresult => by
    rw [reduceBody]
    exact .fallOff hw hresult
  | .result value :: _, s, hw, hstmts, result, _ => by
    obtain ⟨hvalue, -⟩ := List.forall_mem_cons.mp hstmts
    rw [reduceBody]
    exact .become hw (Stmt.typesBelow_result.mp hvalue)
  | .declare name ty init :: rest, s, hw, hstmts, result, hresult => by
    obtain ⟨hinit, hrest⟩ := List.forall_mem_cons.mp hstmts
    rw [reduceBody]
    exact .declare hw (Stmt.typesBelow_declare.mp hinit)
      (Expr.typesBelow_block.mpr ⟨hresult, hrest⟩) name ty
  | .assign name value :: rest, s, hw, hstmts, result, hresult => by
    obtain ⟨hvalue, hrest⟩ := List.forall_mem_cons.mp hstmts
    rw [reduceBody]
    refine (value.leaves hn scope hw (Stmt.typesBelow_assign.mp hvalue)).bind fun _ _ hd h => ?_
    exact Leaves.assign hd.typed h
      (Expr.typesBelow_block.mpr ⟨hd.registered hresult, hd.stmts hrest⟩) name
  | .branch cond whenTrue whenFalse :: rest, s, hw, hstmts, result, hresult => by
    obtain ⟨hbranch, hrest⟩ := List.forall_mem_cons.mp hstmts
    obtain ⟨hcond, htrue, hfalse⟩ := Stmt.typesBelow_branch.mp hbranch
    rw [reduceBody]
    refine (cond.leaves hn scope hw hcond).bind fun _ _ hd h => ?_
    exact Leaves.branch hd.typed h (hd.stmts htrue) (hd.stmts hfalse)
      (Expr.typesBelow_block.mpr ⟨hd.registered hresult, hd.stmts hrest⟩)

end

end ObjectGraph
