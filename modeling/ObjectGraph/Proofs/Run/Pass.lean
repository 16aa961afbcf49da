import ObjectGraph.Proofs.Run.Building
import ObjectGraph.Proofs.Run.Inert

/-!
# What a pass keeps

One pass over an expression continues the world (`Expr.rewrites`), whichever expression of the heap
it is, and whether it fails or not. The induction is on the syntax. It has to carry that what a pass
leaves mentions only what is on the heap, since it is written back: a pass puts in place the bodies
of methods, bindings, elements and the results of promises, and closes arguments over scopes.
-/

namespace ObjectGraph

variable {σ α β : Type} {natives : Natives σ} {s : Pass σ} {scope : Option ScopeId}

/-- The scope, if there is one, is on the heap. -/
def Heap.HasScope (h : Heap) (scope : Option ScopeId) : Prop :=
  ∀ s, scope = some s → h.Has (.scope s)

/-- A scope stays on the heap. -/
theorem World.Continues.hasScope {w w' : World σ} (hc : w.Continues w')
    (hs : w.heap.HasScope scope) : w'.heap.HasScope scope :=
  fun s heq => hc.has (hs s heq)

/-- Statements stay covered. -/
theorem World.Continues.coversStmt {w w' : World σ} (hc : w.Continues w') {stmt : Stmt}
    (hs : w.heap.CoversStmt stmt) : w'.heap.CoversStmt stmt :=
  fun n hn => hc.has (hs n hn)

/-- The step continues the world and leaves an expression that mentions only what is on the heap. -/
def Rewrites (step : Reduction σ Expr) (s : Pass σ) : Prop :=
  Keeps Pass.world step s fun e w => w.heap.Covers e

namespace Keeps

variable {yields : β → World σ → Prop}

/-- Looking at the world first, in a pass. -/
theorem look_bind {f : World σ → α} {next : α → Reduction σ β}
    (h : Keeps Pass.world (next (f s.world)) s yields) :
    Keeps Pass.world (Reduction.perform (Effect.read f) >>= next) s yields :=
  h

/-- Finding the plugin of an instance first. -/
theorem plugin_bind {id : InstanceId} {next : Plugin σ → Reduction σ β}
    (h : Keeps Pass.world (next (natives.pluginFor s.world.types (s.world.heap.get id).ty)) s
      yields) :
    Keeps Pass.world (Reduction.pluginOf natives id >>= next) s yields :=
  h

/-- Looking at the number of reductions first. -/
theorem count_bind {next : ℕ → Reduction σ β}
    (h : Keeps Pass.world (next s.reductions) s yields) :
    Keeps Pass.world (Reduction.count >>= next) s yields :=
  h

/-- Making a type concrete. -/
theorem concrete (hw : s.world.Grounded) (own : TypeArgs) (ty : TypeId) :
    Keeps Pass.world (Reduction.concrete scope own ty) s fun _ _ => True :=
  .look_bind (.perform
    (.onTypes hw (Registry.Grows.allows.substituteWithin _ _ _) fun _ => trivial))

/-- Making generic arguments concrete. -/
theorem concreteArgs (typeArgs : TypeArgs) (hw : s.world.Grounded) :
    Keeps Pass.world (Reduction.concreteArgs scope typeArgs) s fun _ _ => True := by
  induction typeArgs generalizing s with
  | nil => exact .pure hw trivial
  | cons first rest ih =>
    refine .bind (concrete hw [] first.2) fun ty s₁ hc₁ _ => ?_
    exact .bind (ih hc₁.grounded) fun rest s₂ hc₂ _ => .pure hc₂.grounded trivial

/-- Binding the parameters of a method. -/
theorem bindArgs {typeArgs : TypeArgs} (params : List Param) {args : List Expr}
    (hw : s.world.Grounded) (hs : s.world.heap.HasScope scope)
    (hargs : ∀ e ∈ args, s.world.heap.Covers e) :
    Keeps Pass.world (Reduction.bindArgs scope typeArgs params args) s
      fun bindings w => ∀ b ∈ bindings, w.heap.Covers b.expr := by
  induction params generalizing s args with
  | nil => exact .pure hw fun b hb => by cases hb
  | cons p ps ih =>
    cases args with
    | nil =>
      refine .bind (concrete hw typeArgs p.ty) fun ty s₁ hc₁ _ => ?_
      refine .bind (ih hc₁.grounded (hc₁.hasScope hs) fun e he => by cases he)
        fun bindings s₂ hc₂ hb => .pure hc₂.grounded ?_
      exact List.forall_mem_cons.mpr ⟨Heap.covers_missing, hb⟩
    | cons arg args =>
      obtain ⟨harg, hargs⟩ := List.forall_mem_cons.mp hargs
      refine .bind (ih hw hs hargs) fun bindings s₁ hc₁ hb => .pure hc₁.grounded ?_
      exact List.forall_mem_cons.mpr ⟨hc₁.covers (Heap.covers_closeOver hs harg), hb⟩

/-- Turning a value of the host into an expression. -/
theorem materialize {w : World σ} (hw : w.Grounded) {value : HostValue}
    (hvalue : w.heap.CoversHost value) :
    Keeps id (Effect.materialize value) w fun e w' => w'.heap.Covers e := by
  cases value with
  | value ty payload =>
    exact .bind (.allocValue hw hvalue) fun id w' hc hid =>
      .pure hc.grounded (Heap.covers_object.mpr hid)
  | missing ty => exact .pure hw Heap.covers_missing

/-- Putting a promise into another state. -/
theorem setPromise {w : World σ} (hw : w.Grounded) {id : PromiseId} {p : Promise}
    (hp : w.heap.CoversPromise p) :
    Keeps (fun w => w) (Effect.modifyHeap (Heap.setPromise id p)) w fun _ _ => True :=
  .of_ok rfl (World.continues_of_instances_eq hw (hw.heap.setPromise id hp)
    (Heap.within_setPromise id p) rfl fun _ _ => .inl) trivial

/-- Assigning to a binding. -/
theorem assign {w : World σ} (hw : w.Grounded) {found : BindingRef} {e : Expr}
    (he : w.heap.Covers e) :
    Keeps id (Effect.modifyHeap (·.write (.binding found.scope found.index) e)) w
      fun _ _ => True :=
  .of_ok rfl (World.continues_of_instances_eq hw (hw.heap.write _ he) (Heap.within_write _ e) rfl
    (.write _ e)) trivial

end Keeps

namespace Rewrites

/-! ## Leaves -/

/-- Keeping an expression as it is. -/
theorem keep (hw : s.world.Grounded) {e : Expr} (he : s.world.heap.Covers e) :
    Rewrites (pure e) s :=
  Keeps.pure hw he

/-- Putting another expression in place. -/
theorem become (hw : s.world.Grounded) {e : Expr} (he : s.world.heap.Covers e) :
    Rewrites (Reduction.become e) s :=
  Keeps.become hw he

/-- A failure. -/
theorem throw (hw : s.world.Grounded) {e : EvalError} : Rewrites (throw e : Reduction σ Expr) s :=
  Keeps.throw hw

/-- An instance that a step in the world makes. -/
theorem object {action : Effect σ InstanceId}
    (h : Keeps id action s.world fun id w => w.heap.Has (.object id)) :
    Rewrites (do Reduction.become (.object (← Reduction.perform action))) s :=
  .bind (.perform h) fun _ _ hc hid => become hc.grounded (Heap.covers_object.mpr hid)

/-- A literal. -/
theorem scalar (hw : s.world.Grounded) (value : Scalar) :
    Rewrites (Reduction.scalar value) s :=
  object (.allocValue hw fun _ he => absurd he List.not_mem_nil)

/-- An array literal. -/
theorem array (hw : s.world.Grounded) (hs : s.world.heap.HasScope scope) {es : List Expr}
    (hes : ∀ e ∈ es, s.world.heap.Covers e) (ty : TypeId) :
    Rewrites (Reduction.array scope es ty) s := by
  refine .bind (.concrete hw [] ty) fun ty s₁ hc _ => object (.allocValue hc.grounded ?_)
  intro e he
  obtain ⟨t, ht, rfl⟩ := List.mem_map.mp he
  exact hc.covers (Heap.covers_closeOver hs (hes t ht))

/-- The receiver. -/
theorem this (hw : s.world.Grounded) : Rewrites (Reduction.this scope) s := by
  refine .look_bind ?_
  split
  · rename_i receiver hr
    obtain ⟨t, -, ht⟩ := Option.bind_eq_some_iff.mp hr
    exact become hw (Heap.covers_object.mpr (hw.heap.has_receiver? ht))
  · exact throw hw

/-- A name. -/
theorem name (hw : s.world.Grounded) {e : Expr} (he : s.world.heap.Covers e) (n : String) :
    Rewrites (Reduction.name scope e n) s := by
  refine .look_bind ?_
  split
  · exact throw hw
  · refine .look_bind ?_
    split
    · refine .look_bind ?_
      split
      · rename_i receiver hr
        exact become hw (Heap.covers_function.mpr (hw.heap.has_receiver? hr))
      · exact throw hw
    · rename_i bound _ hbound
      split
      · exact become hw (hw.heap.cell hbound)
      · exact keep hw he
    · exact keep hw he

/-! ## Members and operators -/

/-- A plugin's answer, if there is one. -/
theorem answer (hw : s.world.Grounded) {kept : Expr} (hkept : s.world.heap.Covers kept)
    {action : Effect σ (Option Expr)} (h : Answers action s.world) :
    Rewrites (do Reduction.answerOr kept (← Reduction.perform action)) s := by
  have hkeeps : Keeps id action s.world fun answer w => ∀ e, answer = some e → w.heap.Covers e :=
    h.keeps hw fun _ hanswer => hanswer
  refine .bind (.perform hkeeps) fun answer s₁ hc hanswer => ?_
  cases answer with
  | none => exact keep hc.grounded (hc.covers hkept)
  | some e => exact become hc.grounded (hanswer e rfl)

/-- A member. -/
theorem member (hn : natives.Inert) (hw : s.world.Grounded) {object : Expr}
    (hobject : s.world.heap.Covers object) (name : String) (ty : TypeId) :
    Rewrites (Reduction.member natives object name ty) s := by
  unfold Reduction.member
  split
  · exact become hw Heap.covers_missing
  · have hid := Heap.covers_object.mp hobject
    exact .plugin_bind (answer hw (Heap.covers_member.mpr hobject)
      ((hn.pluginFor _ _).property hw hid))
  · exact keep hw (Heap.covers_member.mpr hobject)

/-- An element. -/
theorem index (hn : natives.Inert) (hw : s.world.Grounded) {object position : Expr}
    (hobject : s.world.heap.Covers object) (hposition : s.world.heap.Covers position)
    (ty : TypeId) : Rewrites (Reduction.index natives object position ty) s := by
  have hboth : s.world.heap.Covers (.index object position ty) :=
    Heap.covers_index.mpr ⟨hobject, hposition⟩
  unfold Reduction.index
  split
  · exact become hw Heap.covers_missing
  · exact become hw Heap.covers_missing
  · have hid := Heap.covers_object.mp hobject
    have hposition := Heap.covers_object.mp hposition
    exact .plugin_bind (answer hw hboth
      ((hn.pluginFor _ _).element hw hid hposition))
  · exact keep hw hboth

/-- A binary operation. -/
theorem binary (hn : natives.Inert) (hw : s.world.Grounded) {lhs rhs : Expr}
    (hlhs : s.world.heap.Covers lhs) (hrhs : s.world.heap.Covers rhs) (op : BinaryOp)
    (ty : TypeId) : Rewrites (Reduction.binary natives op lhs rhs ty) s := by
  have hboth : s.world.heap.Covers (.binary op lhs rhs ty) :=
    Heap.covers_binary.mpr ⟨hlhs, hrhs⟩
  unfold Reduction.binary
  split
  · exact become hw Heap.covers_missing
  · exact become hw Heap.covers_missing
  · refine .look_bind (.look_bind ?_)
    dsimp only
    split
    · exact .look_bind (throw hw)
    · refine .plugin_bind (answer hw hboth ((hn.pluginFor _ _).operator hw ?_))
      rintro id (_ | ⟨_, _ | ⟨_, hid⟩⟩)
      · exact Heap.covers_object.mp hlhs
      · exact Heap.covers_object.mp hrhs
      · cases hid
  · exact keep hw hboth

/-- A unary operation. -/
theorem unary (hn : natives.Inert) (hw : s.world.Grounded) {operand : Expr}
    (hoperand : s.world.heap.Covers operand) (op : UnaryOp) (ty : TypeId) :
    Rewrites (Reduction.unary natives op operand ty) s := by
  unfold Reduction.unary
  split
  · exact become hw Heap.covers_missing
  · refine .plugin_bind (answer hw (Heap.covers_unary.mpr hoperand)
      ((hn.pluginFor _ _).operator hw ?_))
    rintro id (_ | ⟨_, hid⟩)
    · exact Heap.covers_object.mp hoperand
    · cases hid
  · exact keep hw (Heap.covers_unary.mpr hoperand)

/-- A reflection. -/
theorem reflect (hw : s.world.Grounded) (operand : Expr) :
    Rewrites (Reduction.reflect scope operand) s := by
  have hjoin (ty : TypeId) : Rewrites (do
      let ty ← Reduction.concrete scope [] ty
      Reduction.become (.object (← Reduction.perform (Effect.allocValue .type (.type ty))))) s :=
    .bind (.concrete hw [] ty) fun _ _ hc _ =>
      object (.allocValue hc.grounded fun _ he => absurd he List.not_mem_nil)
  unfold Reduction.reflect
  dsimp only
  split
  · exact .look_bind (hjoin _)
  · exact hjoin _

/-! ## Construction and calls -/

/-- Construction. -/
theorem new (hw : s.world.Grounded) (hs : s.world.heap.HasScope scope) {args : List Expr}
    (hargs : ∀ e ∈ args, s.world.heap.Covers e) (cls : TypeId) :
    Rewrites (Reduction.new natives scope cls args) s := by
  refine object (.construct natives hw fun e he => ?_)
  obtain ⟨arg, harg, rfl⟩ := List.mem_map.mp he
  exact Heap.covers_closeOver hs (hargs arg harg)

/-- Entering a method's body. -/
theorem enter (hw : s.world.Grounded) (hs : s.world.heap.HasScope scope) {m : MethodRef}
    {receiver : InstanceId} (hreceiver : s.world.heap.Has (.object receiver)) (method : Method)
    {body : Body} (hbody : s.world.heap.Covers (.block body.stmts body.result)) {args : List Expr}
    (hargs : ∀ e ∈ args, s.world.heap.Covers e) (typeArgs : TypeArgs) :
    Rewrites (Reduction.enter scope m receiver method body args typeArgs) s := by
  refine .look_bind ?_
  split
  · exact .look_bind (.look_bind (throw hw))
  · rename_i parent hparent
    have hparent : s.world.heap.Has (.scope parent) := by
      obtain ⟨before, after, hsplit, -⟩ := List.lookup_eq_some_iff.mp hparent
      have hmem : (m.owner, parent) ∈ (s.world.heap.get receiver).scopes := by
        rw [hsplit]
        exact List.mem_append_right _ List.mem_cons_self
      exact hw.heap.scopes hmem
    refine .bind (.concreteArgs typeArgs hw) fun typeArgs s₁ hc₁ _ => ?_
    refine .bind (.bindArgs method.params hc₁.grounded (hc₁.hasScope hs)
      fun e he => hc₁.covers (hargs e he)) fun bindings s₂ hc₂ hbindings => ?_
    have hc := hc₁.trans hc₂
    -- The body's scope is placed below the declaring class's constructor scope in the receiver.
    refine .bind (.perform (.allocScope hc₂.grounded ?_ ?_ hbindings)) fun inner s₃ hc₃ hinner => ?_
    · intro p hp
      obtain rfl : parent = p := Option.some.inj hp
      exact hc.has hparent
    · intro id hid
      obtain rfl : receiver = id := Option.some.inj hid
      exact hc.has hreceiver
    · exact become hc₃.grounded
        (Heap.covers_scoped.mpr ⟨hinner, (hc.trans hc₃).covers hbody⟩)

/-- A call. -/
theorem call (hn : natives.Inert) (hw : s.world.Grounded) (hs : s.world.heap.HasScope scope)
    {callee : Expr} (hcallee : s.world.heap.Covers callee) {args : List Expr}
    (hargs : ∀ e ∈ args, s.world.heap.Covers e) (typeArgs : TypeArgs) (ty : TypeId) :
    Rewrites (Reduction.call natives scope callee args typeArgs ty) s := by
  have hcall : s.world.heap.Covers (.call callee args typeArgs ty) :=
    Heap.covers_call.mpr ⟨hcallee, hargs⟩
  unfold Reduction.call
  split
  · exact become hw Heap.covers_missing
  · rename_i m receiver
    have hreceiver := Heap.covers_function.mp hcallee
    refine .look_bind ?_
    split
    · rename_i body hbody
      exact enter hw hs hreceiver _ (hw.definitions _ _ (Registry.body_mem_exprs hbody)) hargs
        typeArgs
    · have hkeeps : Keeps id ((natives.pluginFor s.world.types m.owner).call receiver m args)
          s.world fun outcome w => ∀ e, outcome = .produced e → w.heap.Covers e :=
        ((hn.pluginFor _ _).call hw hreceiver hargs).keeps hw fun _ houtcome => houtcome
      refine .look_bind (.bind (.perform hkeeps) fun outcome s₁ hc houtcome => ?_)
      cases outcome with
      | produced result => exact become hc.grounded (houtcome result rfl)
      | deferred => exact keep hc.grounded (hc.covers hcall)
  · exact keep hw hcall

/-- A hook's answer. -/
theorem hooked (hn : natives.Inert) (hw : s.world.Grounded) {operand : Expr}
    (hoperand : s.world.heap.Covers operand) (hook : HookId) (ty : TypeId) :
    Rewrites (Reduction.hooked natives operand hook ty) s := by
  unfold Reduction.hooked
  split
  · exact become hw Heap.covers_missing
  · split
    · rename_i callback hcallback
      have hid := Heap.covers_object.mp hoperand
      have hkeeps : Keeps id (callback _) s.world fun e w => w.heap.Covers e :=
        (hn.hooks callback (List.mem_of_getElem? hcallback) hw hid).keeps hw fun _ he => he
      exact .bind (.perform hkeeps) fun e s₁ hc he => become hc.grounded he
    · exact throw hw
  · exact keep hw (Heap.covers_hooked.mpr hoperand)

/-- A promise. -/
theorem promise (hw : s.world.Grounded) {id : PromiseId} {ty : TypeId}
    (hid : s.world.heap.Covers (.promise id ty)) : Rewrites (Reduction.promise id ty) s := by
  have hpromise := hw.heap.promise id
  refine .look_bind ?_
  split
  · exact keep hw hid
  · exact keep hw hid
  · rename_i value heq
    rw [heq] at hpromise
    -- The promise keeps what its result has become, and the expression takes its place.
    refine .bind (.perform (.materialize hw hpromise)) fun e s₁ hc₁ he => ?_
    refine .bind (.perform (.setPromise hc₁.grounded he)) fun _ s₂ hc₂ _ => ?_
    exact become hc₂.grounded (hc₂.covers he)
  · exact .bind (.perform (.setPromise hw trivial)) fun _ s₁ hc _ => throw hc.grounded
  · exact .bind (.perform (.setPromise hw trivial)) fun _ s₁ hc _ => throw hc.grounded
  · rename_i value heq
    rw [heq] at hpromise
    exact become hw hpromise

/-! ## Scopes and bodies -/

/-- Leaving a scope behind. -/
theorem leave (hw : s.world.Grounded) {inner : ScopeId} (hinner : s.world.heap.Has (.scope inner))
    {body : Expr} (hbody : s.world.heap.Covers body) (before : ℕ) :
    Rewrites (Reduction.leave inner before body) s := by
  have hjoin (free : Bool) : Rewrites (if body.isTerminal || free then Reduction.become body
      else pure (.scoped inner body)) s := by
    split
    · exact become hw hbody
    · exact keep hw (Heap.covers_scoped.mpr ⟨hinner, hbody⟩)
  refine .count_bind ?_
  dsimp only
  split
  · exact .look_bind (hjoin _)
  · exact hjoin _

/-- Falling off the end of a body. -/
theorem fallOff (hw : s.world.Grounded) (result : TypeId) :
    Rewrites (Reduction.fallOff scope result) s :=
  .bind (.concrete hw [] result) fun _ _ hc _ => become hc.grounded Heap.covers_missing

/-- A declaration. -/
theorem declare (hw : s.world.Grounded) (hs : s.world.heap.HasScope scope) {init : Expr}
    (hinit : s.world.heap.Covers init) {rest : List Stmt}
    (hrest : ∀ stmt ∈ rest, s.world.heap.CoversStmt stmt) (name : String) (ty result : TypeId) :
    Rewrites (Reduction.declare scope name ty init rest result) s := by
  refine .bind (.perform (.allocScope hw hs (fun id hid => by cases hid) fun b hb => ?_))
    fun inner s₁ hc hinner => ?_
  · obtain rfl := List.mem_singleton.mp hb
    exact Heap.covers_closeOver hs hinit
  · exact become hc.grounded
      (Heap.covers_scoped.mpr ⟨hinner, hc.covers (Heap.covers_block.mpr hrest)⟩)

/-- An assignment. -/
theorem assign (hw : s.world.Grounded) {value : Expr} (hvalue : s.world.heap.Covers value)
    {rest : List Stmt} (hrest : ∀ stmt ∈ rest, s.world.heap.CoversStmt stmt) (name : String)
    (result : TypeId) : Rewrites (Reduction.assign scope name value rest result) s := by
  unfold Reduction.assign
  split
  · refine .look_bind ?_
    split
    · exact .bind (.perform (.assign hw hvalue)) fun _ s₁ hc _ =>
        become hc.grounded (hc.covers (Heap.covers_block.mpr hrest))
    · exact throw hw
  · refine keep hw (Heap.covers_block.mpr (List.forall_mem_cons.mpr ⟨?_, hrest⟩))
    exact Heap.coversStmt_assign.mpr hvalue

/-- A branch. -/
theorem branch (hw : s.world.Grounded) {cond : Expr} (hcond : s.world.heap.Covers cond)
    {whenTrue whenFalse rest : List Stmt}
    (hwhenTrue : ∀ stmt ∈ whenTrue, s.world.heap.CoversStmt stmt)
    (hwhenFalse : ∀ stmt ∈ whenFalse, s.world.heap.CoversStmt stmt)
    (hrest : ∀ stmt ∈ rest, s.world.heap.CoversStmt stmt) (result : TypeId) :
    Rewrites (Reduction.branch cond whenTrue whenFalse rest result) s := by
  unfold Reduction.branch
  split
  · exact become hw (Heap.covers_block.mpr (List.forall_mem_append.mpr ⟨hwhenFalse, hrest⟩))
  · refine .look_bind ?_
    split
    · rename_i taken _
      refine become hw (Heap.covers_block.mpr (List.forall_mem_append.mpr ⟨?_, hrest⟩))
      cases taken with
      | true => exact hwhenTrue
      | false => exact hwhenFalse
    · exact .perform (Asks.keeps .invalidPayload hw fun e he => he)
  · refine keep hw (Heap.covers_block.mpr (List.forall_mem_cons.mpr ⟨?_, hrest⟩))
    exact Heap.coversStmt_branch.mpr ⟨hcond, hwhenTrue, hwhenFalse⟩

/-- A look at whether a left operand decides. -/
theorem shortCircuit (hw : s.world.Grounded) (op : BinaryOp) (lhs : Expr) :
    Keeps Pass.world (Reduction.shortCircuit op lhs) s fun _ _ => True := by
  unfold Reduction.shortCircuit
  split
  · refine .look_bind ?_
    split
    · exact .pure hw trivial
    · exact .pure hw trivial
    · exact .pure hw trivial
  · exact .pure hw trivial

end Rewrites

/-! ## One pass -/

mutual

/-- **A pass over an expression continues the world**, and what it leaves mentions only what is on
the heap. -/
theorem Expr.rewrites (hn : natives.Inert) (scope : Option ScopeId) : ∀ (e : Expr) {s : Pass σ},
    s.world.Grounded → s.world.heap.HasScope scope → s.world.heap.Covers e →
    Rewrites (e.reduce natives scope) s
  | .scalar value, s, hw, _, _ => by
    rw [Expr.reduce]
    exact .scalar hw value
  | .array elements ty, s, hw, hs, he => by
    rw [Expr.reduce]
    exact .array hw hs (Heap.covers_array.mp he) ty
  | .this ty, s, hw, _, _ => by
    rw [Expr.reduce]
    exact .this hw
  | .param n ty, s, hw, _, he => by
    rw [Expr.reduce]
    exact .name hw he n
  | .variable n ty, s, hw, _, he => by
    rw [Expr.reduce]
    exact .name hw he n
  | .member object name ty, s, hw, hs, he => by
    rw [Expr.reduce]
    exact .bind (object.rewrites hn scope hw hs (Heap.covers_member.mp he)) fun _ _ hc h =>
      Rewrites.member hn hc.grounded h name ty
  | .index object position ty, s, hw, hs, he => by
    obtain ⟨hobject, hposition⟩ := Heap.covers_index.mp he
    rw [Expr.reduce]
    refine .bind (object.rewrites hn scope hw hs hobject) fun _ _ hc h => ?_
    refine .bind (position.rewrites hn scope hc.grounded (hc.hasScope hs) (hc.covers hposition))
      fun _ _ hc' h' => ?_
    exact Rewrites.index hn hc'.grounded (hc'.covers h) h' ty
  | .binary op lhs rhs ty, s, hw, hs, he => by
    obtain ⟨hlhs, hrhs⟩ := Heap.covers_binary.mp he
    rw [Expr.reduce]
    refine .bind (lhs.rewrites hn scope hw hs hlhs) fun lhs' _ hc₁ h₁ => ?_
    refine .bind (Rewrites.shortCircuit hc₁.grounded op lhs') fun decided _ hc₂ _ => ?_
    have hc := hc₁.trans hc₂
    cases decided with
    | some decided => exact .become hc₂.grounded (Heap.covers_scalar _)
    | none =>
      -- The right operand gets its pass in the world that the left one has left behind.
      refine .bind (rhs.rewrites hn scope hc.grounded (hc.hasScope hs) (hc.covers hrhs))
        fun _ _ hc₃ h₃ => ?_
      exact Rewrites.binary hn hc₃.grounded (hc₃.covers (hc₂.covers h₁)) h₃ op ty
  | .unary op operand ty, s, hw, hs, he => by
    by_cases hop : op = .typeOf
    · subst hop
      rw [Expr.reduce]
      exact .reflect hw operand
    · rw [Expr.reduce]
      · exact .bind (operand.rewrites hn scope hw hs (Heap.covers_unary.mp he)) fun _ _ hc h =>
          Rewrites.unary hn hc.grounded h op ty
      · exact hop
  | .new cls args, s, hw, hs, he => by
    rw [Expr.reduce]
    exact .new hw hs (Heap.covers_new.mp he) cls
  | .call callee args typeArgs ty, s, hw, hs, he => by
    obtain ⟨hcallee, hargs⟩ := Heap.covers_call.mp he
    rw [Expr.reduce]
    refine .bind (callee.rewrites hn scope hw hs hcallee) fun _ _ hc₁ h₁ => ?_
    refine .bind (rewritesAll hn scope args hc₁.grounded (hc₁.hasScope hs)
      fun e he => hc₁.covers (hargs e he)) fun _ _ hc₂ h₂ => ?_
    exact Rewrites.call hn hc₂.grounded ((hc₁.trans hc₂).hasScope hs) (hc₂.covers h₁) h₂ typeArgs ty
  | .hooked operand hook ty, s, hw, hs, he => by
    rw [Expr.reduce]
    exact .bind (operand.rewrites hn scope hw hs (Heap.covers_hooked.mp he)) fun _ _ hc h =>
      Rewrites.hooked hn hc.grounded h hook ty
  | .promise id ty, s, hw, _, he => by
    rw [Expr.reduce]
    exact .promise hw he
  | .scoped inner body, s, hw, _, he => by
    obtain ⟨hinner, hbody⟩ := Heap.covers_scoped.mp he
    have hscope : s.world.heap.HasScope (some inner) := fun t heq => Option.some.inj heq ▸ hinner
    rw [Expr.reduce]
    refine .count_bind (.bind (body.rewrites hn (some inner) hw hscope hbody) fun _ _ hc h => ?_)
    exact Rewrites.leave hc.grounded (hc.has hinner) h s.reductions
  | .block stmts result, s, hw, hs, he => by
    rw [Expr.reduce]
    exact rewritesBody hn scope stmts hw hs (Heap.covers_block.mp he) result
  | .object id, s, hw, _, he => by
    rw [Expr.reduce]
    exact .keep hw he
  | .missing ty, s, hw, _, he => by
    rw [Expr.reduce]
    exact .keep hw he
  | .unbound method, s, hw, _, he => by
    rw [Expr.reduce]
    exact .keep hw he
  | .function method receiver, s, hw, _, he => by
    rw [Expr.reduce]
    exact .keep hw he

/-- A pass over each expression of a list. -/
theorem rewritesAll (hn : natives.Inert) (scope : Option ScopeId) : ∀ (es : List Expr) {s : Pass σ},
    s.world.Grounded → s.world.heap.HasScope scope → (∀ e ∈ es, s.world.heap.Covers e) →
    Keeps Pass.world (reduceAll natives scope es) s fun es' w => ∀ e ∈ es', w.heap.Covers e
  | [], s, hw, _, _ => by
    rw [reduceAll]
    exact .pure hw fun e he => by cases he
  | e :: es, s, hw, hs, hes => by
    obtain ⟨he, hes⟩ := List.forall_mem_cons.mp hes
    rw [reduceAll]
    refine .bind (e.rewrites hn scope hw hs he) fun e' s₁ hc₁ h₁ => ?_
    refine .bind (rewritesAll hn scope es hc₁.grounded (hc₁.hasScope hs)
      fun e he => hc₁.covers (hes e he)) fun es' s₂ hc₂ h₂ => ?_
    exact .pure hc₂.grounded (List.forall_mem_cons.mpr ⟨hc₂.covers h₁, h₂⟩)

/-- A pass over a body. -/
theorem rewritesBody (hn : natives.Inert) (scope : Option ScopeId) : ∀ (stmts : List Stmt)
    {s : Pass σ}, s.world.Grounded → s.world.heap.HasScope scope →
    (∀ stmt ∈ stmts, s.world.heap.CoversStmt stmt) → ∀ result,
    Rewrites (reduceBody natives scope result stmts) s
  | [], s, hw, _, _, result => by
    rw [reduceBody]
    exact .fallOff hw result
  | .result value :: _, s, hw, _, hstmts, result => by
    obtain ⟨hvalue, -⟩ := List.forall_mem_cons.mp hstmts
    rw [reduceBody]
    exact .become hw (Heap.coversStmt_result.mp hvalue)
  | .declare name ty init :: rest, s, hw, hs, hstmts, result => by
    obtain ⟨hinit, hrest⟩ := List.forall_mem_cons.mp hstmts
    rw [reduceBody]
    exact .declare hw hs (Heap.coversStmt_declare.mp hinit) hrest name ty result
  | .assign name value :: rest, s, hw, hs, hstmts, result => by
    obtain ⟨hvalue, hrest⟩ := List.forall_mem_cons.mp hstmts
    rw [reduceBody]
    refine .bind (value.rewrites hn scope hw hs (Heap.coversStmt_assign.mp hvalue))
      fun _ _ hc h => ?_
    refine Rewrites.assign hc.grounded h (fun stmt hstmt => ?_) name result
    exact hc.coversStmt (hrest stmt hstmt)
  | .branch cond whenTrue whenFalse :: rest, s, hw, hs, hstmts, result => by
    obtain ⟨hbranch, hrest⟩ := List.forall_mem_cons.mp hstmts
    obtain ⟨hcond, htrue, hfalse⟩ := Heap.coversStmt_branch.mp hbranch
    rw [reduceBody]
    refine .bind (cond.rewrites hn scope hw hs hcond) fun _ _ hc h => ?_
    exact Rewrites.branch hc.grounded h (fun stmt h => hc.coversStmt (htrue stmt h))
      (fun stmt h => hc.coversStmt (hfalse stmt h)) (fun stmt h => hc.coversStmt (hrest stmt h))
      result

end

end ObjectGraph
