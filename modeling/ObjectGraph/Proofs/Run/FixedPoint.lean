import ObjectGraph.Proofs.Run.Calls
import ObjectGraph.Proofs.Sweep

/-!
# Sweeps without work

A pass counts the reductions it makes, and whatever it does comes with one. So a pass that has not
counted a reduction answers the expression that it was given and leaves everything as it was
(`Expr.accounted`). What is left out of the count are the questions that plugins answer with "not
yet": a plugin must not touch the world for such an answer (`Plugin.Patient`), as none of the
built-in ones does.

It follows that a sweep that reports neither a reduction nor a sealed instance has changed nothing,
and that sweeping again, in any order, reports the same (`Effect.sweep_idle`).
-/

namespace ObjectGraph

variable {σ α β : Type} {natives : Natives σ}

/-! ## Plugins that can wait -/

/-- A plugin that leaves the world as it is whenever it has no answer yet. -/
structure Plugin.Patient (p : Plugin σ) : Prop where
  /-- Asked for a member. -/
  property : ∀ {id name w w'}, p.property id name w = .ok none w' → w' = w
  /-- Asked for an element. -/
  element : ∀ {id position w w'}, p.element id position w = .ok none w' → w' = w
  /-- Asked for the result of an operator. -/
  operator : ∀ {operation w w'}, p.operator operation w = .ok none w' → w' = w
  /-- Asked to answer a call. -/
  call : ∀ {receiver m args w w'}, p.call receiver m args w = .ok .deferred w' → w' = w

/-- Plugins that leave the world as it is whenever they have no answer yet. -/
def Natives.Patient (natives : Natives σ) : Prop := ∀ entry ∈ natives.plugins, entry.2.Patient

/-- A plugin that only reads the world can wait. -/
theorem Plugin.Steady.patient {p : Plugin σ} (h : p.Steady) : p.Patient where
  property hp := (h.property.ok hp).1
  element he := (h.element.ok he).1
  operator ho := (h.operator.ok ho).1
  call hc := (h.call.ok hc).1

namespace Natives

/-- The built-in plugins can wait. -/
theorem patient_builtin : (builtin : Natives σ).Patient :=
  fun entry hentry => (steady_builtin.plugins entry hentry).patient

/-- The plugin that speaks for a type can wait if the registered ones can. -/
theorem Patient.pluginFor (hn : natives.Patient) (types : Registry) (ty : TypeId) :
    (natives.pluginFor types ty).Patient :=
  forall_pluginFor (P := Plugin.Patient) Plugin.steady_plainClass.patient hn types ty

end Natives

/-! ## Counting -/

/-- The step makes no reduction of its own. -/
def Uncounted (step : Reduction σ α) : Prop :=
  ∀ s, Ends step s (fun _ s' => s'.reductions = s.reductions) fun _ _ => True

/-- The step makes a reduction, if it does not fail. -/
def Counted (step : Reduction σ α) : Prop :=
  ∀ s, Ends step s (fun _ s' => s.reductions < s'.reductions) fun _ _ => True

/-- The step accounts for what it does: if it ends without a reduction, then it has changed nothing
and answers `kept`. -/
def Accounted (step : Reduction σ α) (kept : α) : Prop :=
  ∀ s, Ends step s
    (fun a s' => s.reductions ≤ s'.reductions ∧
      (s'.reductions = s.reductions → s' = s ∧ a = kept))
    fun _ _ => True

namespace Uncounted

/-- A pure step. -/
theorem pure {a : α} : Uncounted (Pure.pure a : Reduction σ α) := fun _ => Ends.of_ok rfl rfl

/-- The rule for sequences. -/
theorem bind {step : Reduction σ α} {next : α → Reduction σ β} (h : Uncounted step)
    (hnext : ∀ a, Uncounted (next a)) : Uncounted (step >>= next) := fun s =>
  Ends.bind <| (h s).mono (fun a s₁ h₁ => (hnext a s₁).mono (fun _ _ h₂ => h₂.trans h₁)
    fun _ _ _ => trivial) fun _ _ _ => trivial

/-- A step in the world. -/
theorem perform {action : Effect σ α} : Uncounted (Reduction.perform action) := fun s => by
  cases h : action s.world with
  | ok a w => exact Ends.of_ok (Reduction.perform_of_ok h) rfl
  | error e w => exact Ends.of_error (Reduction.perform_of_error h) trivial

/-- Making a type concrete. -/
theorem concrete {scope : Option ScopeId} {own : TypeArgs} {ty : TypeId} :
    Uncounted (Reduction.concrete scope own ty : Reduction σ TypeId) :=
  Uncounted.perform.bind fun _ => perform

/-- Making generic arguments concrete. -/
theorem concreteArgs {scope : Option ScopeId} (typeArgs : TypeArgs) :
    Uncounted (Reduction.concreteArgs scope typeArgs : Reduction σ TypeArgs) := by
  induction typeArgs with
  | nil => exact .pure
  | cons first rest ih => exact concrete.bind fun _ => ih.bind fun _ => .pure

/-- Binding the parameters of a method. -/
theorem bindArgs {scope : Option ScopeId} {typeArgs : TypeArgs} (params : List Param)
    (args : List Expr) :
    Uncounted (Reduction.bindArgs scope typeArgs params args : Reduction σ (List Binding)) := by
  induction params generalizing args with
  | nil => exact .pure
  | cons p ps ih =>
    cases args with
    | nil => exact concrete.bind fun _ => (ih []).bind fun _ => .pure
    | cons arg args => exact (ih args).bind fun _ => .pure

end Uncounted

namespace Counted

/-- Putting another expression in place. -/
theorem become {e : Expr} : Counted (Reduction.become e : Reduction σ Expr) := fun s =>
  Ends.of_ok rfl (Nat.lt_succ_self s.reductions)

/-- A failure. -/
theorem throw {e : EvalError} : Counted (throw e : Reduction σ α) := fun _ => Ends.of_error rfl trivial

/-- What makes a reduction after a step that makes none. -/
theorem after {step : Reduction σ α} {next : α → Reduction σ β} (h : Uncounted step)
    (hnext : ∀ a, Counted (next a)) : Counted (step >>= next) := fun s =>
  Ends.bind <| (h s).mono (fun a s₁ h₁ => (hnext a s₁).mono
    (fun _ _ h₂ => Nat.lt_of_le_of_lt (Nat.le_of_eq h₁.symm) h₂) fun _ _ _ => trivial) fun _ _ _ => trivial

/-- An instance that a step in the world makes. -/
theorem object {action : Effect σ InstanceId} :
    Counted (do Reduction.become (.object (← Reduction.perform action))) :=
  after .perform fun _ => become

/-- A step that makes a reduction accounts for what it does. -/
theorem accounted {step : Reduction σ α} {kept : α} (h : Counted step) : Accounted step kept :=
  fun s => (h s).mono (fun _ _ hlt => ⟨Nat.le_of_lt hlt, fun heq => absurd heq (Nat.ne_of_gt hlt)⟩)
    fun _ _ _ => trivial

end Counted

namespace Accounted

/-- Keeping an expression. -/
theorem keep {kept : α} : Accounted (pure kept : Reduction σ α) kept := fun _ =>
  Ends.of_ok rfl ⟨Nat.le_refl _, fun _ => ⟨rfl, rfl⟩⟩

/-- Putting another expression in place. -/
theorem become {e kept : Expr} : Accounted (Reduction.become e : Reduction σ Expr) kept :=
  Counted.become.accounted

/-- A failure. -/
theorem throw {e : EvalError} {kept : α} : Accounted (throw e : Reduction σ α) kept :=
  Counted.throw.accounted

/-- The rule for sequences. The second step keeps something that depends on what the first one
answers, and for an idle first step that is what it has kept itself. -/
theorem bind {step : Reduction σ α} {next : α → Reduction σ β} {kept : α} {f : α → β}
    (h : Accounted step kept) (hnext : ∀ a, Accounted (next a) (f a)) :
    Accounted (step >>= next) (f kept) := fun s => by
  refine Ends.bind ((h s).mono (fun a s₁ h₁ => ?_) fun _ _ _ => trivial)
  obtain ⟨hle₁, hidle₁⟩ := h₁
  refine (hnext a s₁).mono (fun b s₂ h₂ => ?_) fun _ _ _ => trivial
  obtain ⟨hle₂, hidle₂⟩ := h₂
  refine ⟨Nat.le_trans hle₁ hle₂, fun heq => ?_⟩
  obtain ⟨rfl, rfl⟩ := hidle₁ (by omega)
  exact hidle₂ heq

/-- A step that changes nothing first. -/
theorem look_bind {f : World σ → α} {next : α → Reduction σ β} {kept : β}
    (h : ∀ a, Accounted (next a) kept) :
    Accounted (Reduction.perform (Effect.read f) >>= next) kept :=
  fun s => h (f s.world) s

/-- Looking at the number of reductions first. -/
theorem count_bind {next : ℕ → Reduction σ β} {kept : β} (h : ∀ n, Accounted (next n) kept) :
    Accounted (Reduction.count >>= next) kept :=
  fun s => h s.reductions s

/-- Finding the plugin of an instance first. -/
theorem plugin_bind (hn : natives.Patient) {id : InstanceId} {next : Plugin σ → Reduction σ β}
    {kept : β} (h : ∀ plugin, plugin.Patient → Accounted (next plugin) kept) :
    Accounted (Reduction.pluginOf natives id >>= next) kept :=
  fun s => h _ (hn.pluginFor _ _) s

/-- A plugin's answer, if it has one. -/
theorem answer {action : Effect σ (Option Expr)} {kept : Expr}
    (h : ∀ {w w'}, action w = .ok none w' → w' = w) :
    Accounted (do Reduction.answerOr kept (← Reduction.perform action)) kept := by
  intro s
  cases hs : action s.world with
  | error e w => exact Ends.of_error (bind_of_error (Reduction.perform_of_error hs)) trivial
  | ok answer w =>
    refine Ends.bind (Ends.of_ok (Reduction.perform_of_ok hs) ?_)
    cases answer with
    | some e => exact Ends.of_ok rfl ⟨Nat.le_succ _, fun heq => absurd heq (Nat.succ_ne_self _)⟩
    | none =>
      obtain rfl := h hs
      exact keep s

/-! ## Leaves, members and operators -/

variable {scope : Option ScopeId}

/-- A name. -/
theorem name {e : Expr} {n : String} :
    Accounted (Reduction.name scope e n : Reduction σ Expr) e := by
  refine .look_bind fun found => ?_
  split
  · exact .throw
  · refine .look_bind fun bound => ?_
    split
    · refine .look_bind fun receiver => ?_
      split
      · exact .become
      · exact .throw
    · split
      · exact .become
      · exact .keep
    · exact .keep

/-- A member. -/
theorem member (hn : natives.Patient) (object : Expr) (name : String) (ty : TypeId) :
    Accounted (Reduction.member natives object name ty) (.member object name ty) := by
  unfold Reduction.member
  split
  · exact .become
  · exact .plugin_bind hn fun plugin hp => .answer hp.property
  · exact .keep

/-- An element. -/
theorem index (hn : natives.Patient) (object position : Expr) (ty : TypeId) :
    Accounted (Reduction.index natives object position ty) (.index object position ty) := by
  unfold Reduction.index
  split
  · exact .become
  · exact .become
  · exact .plugin_bind hn fun plugin hp => .answer hp.element
  · exact .keep

/-- A look at whether a left operand decides, with what follows from it. -/
theorem shortCircuit_bind {op : BinaryOp} {lhs : Expr} {next : Option Bool → Reduction σ β}
    {kept : β} (h : ∀ decided, Accounted (next decided) kept) :
    Accounted (Reduction.shortCircuit op lhs >>= next) kept := by
  intro s
  have hlook : Ends (Reduction.shortCircuit op lhs) s (fun _ s' => s' = s) fun _ _ => True := by
    unfold Reduction.shortCircuit
    split
    · refine Ends.bind (Ends.of_ok rfl ?_)
      split
      · exact Ends.of_ok rfl rfl
      · exact Ends.of_ok rfl rfl
      · exact Ends.of_ok rfl rfl
    · exact Ends.of_ok rfl rfl
  refine Ends.bind (hlook.mono (fun decided s' hs' => ?_) fun _ _ _ => trivial)
  obtain rfl := hs'
  exact h decided s'

/-- A binary operation. -/
theorem binary (hn : natives.Patient) (op : BinaryOp) (lhs rhs : Expr) (ty : TypeId) :
    Accounted (Reduction.binary natives op lhs rhs ty) (.binary op lhs rhs ty) := by
  unfold Reduction.binary
  split
  · exact .become
  · exact .become
  · refine .look_bind fun l => .look_bind fun r => ?_
    dsimp only
    split
    · exact .look_bind fun types => .throw
    · exact .plugin_bind hn fun plugin hp => .answer hp.operator
  · exact .keep

/-- A unary operation. -/
theorem unary (hn : natives.Patient) (op : UnaryOp) (operand : Expr) (ty : TypeId) :
    Accounted (Reduction.unary natives op operand ty) (.unary op operand ty) := by
  unfold Reduction.unary
  split
  · exact .become
  · exact .plugin_bind hn fun plugin hp => .answer hp.operator
  · exact .keep

/-- A reflection. -/
theorem reflect (operand : Expr) {kept : Expr} :
    Accounted (Reduction.reflect scope operand : Reduction σ Expr) kept := by
  have hjoin (ty : TypeId) : Counted (do
      let ty ← Reduction.concrete scope [] ty
      Reduction.become (.object (← Reduction.perform (Effect.allocValue .type (.type ty)))) :
      Reduction σ Expr) :=
    .after .concrete fun _ => .object
  unfold Reduction.reflect
  dsimp only
  split
  · exact .look_bind fun i => (hjoin i.ty).accounted
  · exact (hjoin _).accounted

/-! ## Construction and calls -/

/-- Entering a method's body. -/
theorem enter {m : MethodRef} {receiver : InstanceId} {method : Method} {body : Body}
    {args : List Expr} {typeArgs : TypeArgs} {kept : Expr} :
    Accounted (Reduction.enter scope m receiver method body args typeArgs : Reduction σ Expr)
      kept := by
  refine .look_bind fun i => ?_
  split
  · exact .look_bind fun _ => .look_bind fun _ => .throw
  · refine Counted.accounted ?_
    refine .after (.concreteArgs typeArgs) fun _ => .after (.bindArgs _ args) fun _ => ?_
    exact .after .perform fun _ => .become

/-- A call. -/
theorem call (hn : natives.Patient) (callee : Expr) (args : List Expr) (typeArgs : TypeArgs)
    (ty : TypeId) :
    Accounted (Reduction.call natives scope callee args typeArgs ty)
      (.call callee args typeArgs ty) := by
  unfold Reduction.call
  split
  · exact .become
  · rename_i m receiver
    refine .look_bind fun method => ?_
    split
    · exact .enter
    · intro s
      refine Ends.bind (Ends.of_ok rfl ?_)
      have hp := hn.pluginFor s.world.types m.owner
      cases hs : (natives.pluginFor s.world.types m.owner).call receiver m args s.world with
      | error e w => exact Ends.of_error (bind_of_error (Reduction.perform_of_error hs)) trivial
      | ok outcome w =>
        refine Ends.bind (Ends.of_ok (Reduction.perform_of_ok hs) ?_)
        cases outcome with
        | produced result =>
          exact Ends.of_ok rfl ⟨Nat.le_succ _, fun heq => absurd heq (Nat.succ_ne_self _)⟩
        | deferred =>
          -- A plugin that defers has changed nothing.
          obtain rfl := hp.call hs
          exact keep s
  · exact .keep

/-- A hook's answer. -/
theorem hooked (operand : Expr) (hook : HookId) (ty : TypeId) :
    Accounted (Reduction.hooked natives operand hook ty) (.hooked operand hook ty) := by
  unfold Reduction.hooked
  split
  · exact .become
  · split
    · exact (Counted.after .perform fun _ => .become).accounted
    · exact .throw
  · exact .keep

/-- A promise. -/
theorem promise {id : PromiseId} {ty : TypeId} :
    Accounted (Reduction.promise id ty : Reduction σ Expr) (.promise id ty) := by
  refine .look_bind fun promise => ?_
  split
  · exact .keep
  · exact .keep
  · exact (Counted.after .perform fun _ => .after .perform fun _ => .become).accounted
  · exact (Counted.after .perform fun _ => .throw).accounted
  · exact (Counted.after .perform fun _ => .throw).accounted
  · exact .become

/-! ## Scopes and bodies -/

/-- Leaving a scope behind. -/
theorem leave (inner : ScopeId) (before : ℕ) (body : Expr) :
    Accounted (Reduction.leave inner before body : Reduction σ Expr) (.scoped inner body) := by
  have hjoin (free : Bool) : Accounted (if body.isTerminal || free then Reduction.become body
      else pure (.scoped inner body) : Reduction σ Expr) (.scoped inner body) := by
    split
    · exact .become
    · exact .keep
  refine .count_bind fun n => ?_
  dsimp only
  split
  · exact .look_bind hjoin
  · exact hjoin _

/-- An assignment. -/
theorem assign {name : String} (value : Expr) {rest : List Stmt} {result : TypeId} :
    Accounted (Reduction.assign scope name value rest result : Reduction σ Expr)
      (.block (.assign name value :: rest) result) := by
  unfold Reduction.assign
  split
  · refine .look_bind fun found => ?_
    split
    · exact (Counted.after .perform fun _ => .become).accounted
    · exact .throw
  · exact .keep

/-- A branch. -/
theorem branch (cond : Expr) {whenTrue whenFalse rest : List Stmt} {result : TypeId} :
    Accounted (Reduction.branch cond whenTrue whenFalse rest result : Reduction σ Expr)
      (.block (.branch cond whenTrue whenFalse :: rest) result) := by
  unfold Reduction.branch
  split
  · exact .become
  · refine .look_bind fun i => ?_
    split
    · exact .become
    · exact Counted.accounted fun s => Ends.of_error rfl trivial
  · exact .keep

end Accounted

/-! ## One pass -/

mutual

/-- **A pass over an expression accounts for what it does.** Without a reduction it answers the
expression itself, and leaves everything as it was. -/
theorem Expr.accounted (hn : natives.Patient) (scope : Option ScopeId) : ∀ e : Expr,
    Accounted (e.reduce natives scope) e
  | .scalar value => by
    rw [Expr.reduce]
    exact Counted.object.accounted
  | .array elements ty => by
    rw [Expr.reduce]
    exact (Counted.after .concrete fun _ => .object).accounted
  | .this ty => by
    rw [Expr.reduce]
    refine .look_bind fun receiver => ?_
    split
    · exact .become
    · exact .throw
  | .param n ty => by
    rw [Expr.reduce]
    exact .name
  | .variable n ty => by
    rw [Expr.reduce]
    exact .name
  | .member object name ty => by
    rw [Expr.reduce]
    exact (object.accounted hn scope).bind fun object => .member hn object name ty
  | .index object position ty => by
    rw [Expr.reduce]
    refine (object.accounted hn scope).bind (f := fun o => Expr.index o position ty) fun object => ?_
    exact (position.accounted hn scope).bind fun position => .index hn object position ty
  | .binary op lhs rhs ty => by
    rw [Expr.reduce]
    refine (lhs.accounted hn scope).bind (f := fun l => Expr.binary op l rhs ty) fun lhs => ?_
    -- A left operand that decides leaves the right one out, which is a reduction.
    refine .shortCircuit_bind fun decided => ?_
    cases decided with
    | some decided => exact .become
    | none => exact (rhs.accounted hn scope).bind fun rhs => .binary hn op lhs rhs ty
  | .unary op operand ty => by
    by_cases hop : op = .typeOf
    · subst hop
      rw [Expr.reduce]
      exact .reflect operand
    · rw [Expr.reduce]
      · exact (operand.accounted hn scope).bind fun operand => .unary hn op operand ty
      · exact hop
  | .new cls args => by
    rw [Expr.reduce]
    exact Counted.object.accounted
  | .call callee args typeArgs ty => by
    rw [Expr.reduce]
    refine (callee.accounted hn scope).bind (f := fun c => Expr.call c args typeArgs ty) fun callee => ?_
    exact (accountedAll hn scope args).bind fun args => .call hn callee args typeArgs ty
  | .hooked operand hook ty => by
    rw [Expr.reduce]
    exact (operand.accounted hn scope).bind fun operand => .hooked operand hook ty
  | .promise id ty => by
    rw [Expr.reduce]
    exact .promise
  | .scoped inner body => by
    rw [Expr.reduce]
    -- The step out of the scope compares with what had been counted before the body.
    refine .count_bind fun before => ?_
    exact (body.accounted hn (some inner)).bind fun body => .leave inner before body
  | .block stmts result => by
    rw [Expr.reduce]
    exact accountedBody hn scope stmts result
  | .object id => by
    rw [Expr.reduce]
    exact .keep
  | .missing ty => by
    rw [Expr.reduce]
    exact .keep
  | .unbound method => by
    rw [Expr.reduce]
    exact .keep
  | .function method receiver => by
    rw [Expr.reduce]
    exact .keep

/-- A pass over each expression of a list. -/
theorem accountedAll (hn : natives.Patient) (scope : Option ScopeId) : ∀ es : List Expr,
    Accounted (reduceAll natives scope es) es
  | [] => by
    rw [reduceAll]
    exact .keep
  | e :: es => by
    rw [reduceAll]
    refine (e.accounted hn scope).bind (f := fun e => e :: es) fun e => ?_
    exact (accountedAll hn scope es).bind fun es => .keep

/-- A pass over a body. -/
theorem accountedBody (hn : natives.Patient) (scope : Option ScopeId) : ∀ (stmts : List Stmt)
    (result : TypeId), Accounted (reduceBody natives scope result stmts) (.block stmts result)
  | [], result => by
    rw [reduceBody]
    exact (Counted.after .concrete fun _ => .become).accounted
  | .result value :: _, result => by
    rw [reduceBody]
    exact .become
  | .declare name ty init :: rest, result => by
    rw [reduceBody]
    exact (Counted.after .perform fun _ => .become).accounted
  | .assign name value :: rest, result => by
    rw [reduceBody]
    exact (value.accounted hn scope).bind fun value => .assign value
  | .branch cond whenTrue whenFalse :: rest, result => by
    rw [reduceBody]
    exact (cond.accounted hn scope).bind fun cond => .branch cond

end

/-! ## Sweeps -/

namespace Effect

variable {w w' : World σ}

/-- A pass without reductions answers the expression itself and changes nothing. -/
theorem pass_idle (hn : natives.Patient) {scope : Option ScopeId} {e e' : Expr}
    (h : pass natives scope e w = .ok (e', 0) w') : e' = e ∧ w' = w := by
  have haccounted := e.accounted hn scope ⟨w, 0⟩
  unfold pass at h
  cases hs : e.reduce natives scope ⟨w, 0⟩ with
  | error error s => rw [hs] at h; cases h
  | ok e₁ s =>
    rw [hs] at h
    injection h with hresult hworld
    injection hresult with hexpr hcount
    obtain ⟨rfl, rfl⟩ := (haccounted.ok hs).2 hcount
    exact ⟨hexpr.symm, hworld.symm⟩

/-- A step that may depend on the order of sweeps changes nothing unless it reports something, and
then it would report nothing in another order either. -/
def Reports (step : SweepOrder → Effect σ ℕ) : Prop :=
  ∀ ⦃order w w'⦄, step order w = .ok 0 w' → w' = w ∧ ∀ order', step order' w = .ok 0 w

/-- A pass over a cell reports what it does: without reductions the cell is written with what it
holds. -/
theorem reports_sweepCell (hn : natives.Patient) (c : Cell) :
    Reports fun _ => sweepCell natives c := by
  intro _ w w' h
  replace h : sweepCell natives c w = .ok 0 w' := h
  suffices hw : w' = w from ⟨hw, fun _ => hw ▸ h⟩
  unfold sweepCell at h
  rw [bind_of_ok (read_apply _ w)] at h
  cases he : w.heap.read? c with
  | none => rw [he] at h; injection h with _ hw; exact hw.symm
  | some e =>
    rw [he] at h
    dsimp only at h
    split at h
    · injection h with _ hw
      exact hw.symm
    · obtain ⟨⟨e', n⟩, w₁, hpass, h⟩ := exists_of_bind_ok h
      injection h with hcount hw
      obtain rfl : n = 0 := hcount
      obtain ⟨rfl, rfl⟩ := pass_idle hn hpass
      have hwrite : w₁.heap.write c e' = w₁.heap := Heap.write_of_read? _ he
      calc w' = { w₁ with heap := w₁.heap.write c e' } := hw.symm
        _ = w₁ := by rw [hwrite]

/-- Steps that report nothing in a world report nothing together. -/
theorem sumOver_of_idle {ι : Type} {step : ι → Effect σ ℕ} {items : List ι}
    (h : ∀ item ∈ items, step item w = .ok 0 w) : sumOver step items w = .ok 0 w := by
  induction items with
  | nil => rfl
  | cons item items ih =>
    obtain ⟨hitem, hitems⟩ := List.forall_mem_cons.mp h
    rw [sumOver, bind_of_ok hitem, bind_of_ok (ih hitems)]
    rfl

/-- If the sum is zero, then so is each report, and nothing has changed. -/
theorem idle_of_sumOver {ι : Type} {step : ι → Effect σ ℕ} {items : List ι}
    (hstep : ∀ item {w w'}, step item w = .ok 0 w' → w' = w)
    (h : sumOver step items w = .ok 0 w') :
    w' = w ∧ ∀ item ∈ items, step item w = .ok 0 w := by
  induction items generalizing w with
  | nil =>
    injection h with _ hw
    exact ⟨hw.symm, fun item hitem => absurd hitem List.not_mem_nil⟩
  | cons item items ih =>
    obtain ⟨n, w₁, hitem, h⟩ := exists_of_bind_ok h
    obtain ⟨m, w₂, hitems, h⟩ := exists_of_bind_ok h
    injection h with hsum hw
    obtain ⟨rfl, rfl⟩ : n = 0 ∧ m = 0 := by omega
    subst hw
    obtain rfl := hstep item hitem
    obtain ⟨rfl, hidle⟩ := ih hitems
    exact ⟨rfl, List.forall_mem_cons.mpr ⟨hitem, hidle⟩⟩

/-- A sum reports what its steps report, also if the order rearranges it. -/
theorem reports_sumOver {ι : Type} {step : SweepOrder → ι → Effect σ ℕ} {items : List ι}
    (hstep : ∀ item, Reports fun order => step order item) :
    Reports fun order => sumOver (step order) (order.arrange items) := by
  intro order w w' h
  obtain ⟨hw, hidle⟩ := idle_of_sumOver (fun item {_ _} hitem => (hstep item hitem).1) h
  refine ⟨hw, fun order' => sumOver_of_idle fun item hitem => ?_⟩
  exact (hstep item (hidle item
    (SweepOrder.mem_arrange.mpr (SweepOrder.mem_arrange.mp hitem)))).2 order'

/-- Passes over cells report what they do. -/
theorem reports_sweepCells (hn : natives.Patient) (cells : List Cell) :
    Reports fun order => sumOver (sweepCell natives) (order.arrange cells) :=
  reports_sumOver fun c => reports_sweepCell hn c

/-- A sweep over a scope reports what it does. -/
theorem reports_sweepScope (hn : natives.Patient) (id : ScopeId) :
    Reports fun order => sweepScope natives order id := by
  intro order w w' h
  exact reports_sweepCells hn (w.heap.bindingCells id) h

/-- A sweep over an instance reports what it does. -/
theorem reports_sweepInstance (hn : natives.Patient) (id : InstanceId) :
    Reports fun order => sweepInstance natives order id := by
  intro order w w' h
  replace h : sweepInstance natives order id w = .ok 0 w' := h
  rw [sweepInstance, bind_of_ok (read_apply _ w)] at h
  obtain ⟨slots, w₁, hslots, h⟩ := exists_of_bind_ok h
  rw [bind_of_ok (read_apply _ w₁)] at h
  obtain ⟨elements, w₂, helements, h⟩ := exists_of_bind_ok h
  injection h with hsum hw
  obtain ⟨rfl, rfl⟩ : slots = 0 ∧ elements = 0 := by omega
  obtain ⟨rfl, hslots⟩ := reports_sweepCells hn _ hslots
  obtain ⟨rfl, helements⟩ := reports_sweepCells hn _ helements
  refine ⟨hw.symm, fun order' => ?_⟩
  show sweepInstance natives order' id _ = _
  rw [sweepInstance, bind_of_ok (read_apply _ _), bind_of_ok (hslots order'),
    bind_of_ok (read_apply _ _), bind_of_ok (helements order')]
  rfl

/-- Sealing reports each instance that it seals, so that sealing that reports nothing has done
nothing. -/
theorem eq_of_sealEach {ids : List InstanceId} (h : sealEach natives ids w = .ok 0 w') :
    w' = w := by
  cases ids with
  | nil =>
    injection h with _ hw
    exact hw.symm
  | cons id ids =>
    obtain ⟨_, w₁, -, h⟩ := exists_of_bind_ok h
    obtain ⟨n, w₂, -, h⟩ := exists_of_bind_ok h
    injection h with hcount
    cases hcount

/-- A sweep without work has changed nothing, and sweeping again in any order comes to the same, for
all plugins that can wait. -/
theorem idle_of_sweep (hn : natives.Patient) {order : SweepOrder} {root : InstanceId}
    {cost : SweepCost} (h : sweep natives order root w = .ok cost w')
    (hreductions : cost.reductions = 0) (hsealed : cost.sealed = 0) :
    w' = w ∧ ∀ order', sweep natives order' root w = .ok cost w := by
  rw [sweep, bind_of_ok (read_apply _ w)] at h
  obtain ⟨scopes, w₁, hscopes, h⟩ := exists_of_bind_ok h
  obtain ⟨instances, w₂, hinstances, h⟩ := exists_of_bind_ok h
  obtain ⟨sealed, w₃, hseal, h⟩ := exists_of_bind_ok h
  injection h with hcost hw
  subst hcost hw
  obtain ⟨rfl, rfl⟩ : scopes = 0 ∧ instances = 0 := Nat.add_eq_zero_iff.mp hreductions
  obtain rfl : sealed = 0 := hsealed
  -- Each of the three parts has reported nothing, in the world that the one before has left.
  obtain ⟨rfl, hscopes⟩ := reports_sumOver (fun id => reports_sweepScope hn id) hscopes
  obtain ⟨rfl, hinstances⟩ := reports_sumOver (fun id => reports_sweepInstance hn id) hinstances
  obtain rfl := eq_of_sealEach hseal
  refine ⟨rfl, fun order' => ?_⟩
  rw [sweep, bind_of_ok (read_apply _ _), bind_of_ok (hscopes order'),
    bind_of_ok (hinstances order'), bind_of_ok hseal]
  rfl

/-- **A sweep that reports no work is a fixed point.** If a sweep with the built-in plugins reports
neither a reduction nor a sealed instance, then types, heap and host are as they were, and each
further sweep reports the same and again changes nothing, in whichever order it goes. -/
theorem sweep_fixed {order : SweepOrder} {root : InstanceId} {cost : SweepCost}
    (h : sweep .builtin order root w = .ok cost w') (hreductions : cost.reductions = 0)
    (hsealed : cost.sealed = 0) :
    w' = w ∧ ∀ order', sweep .builtin order' root w' = .ok cost w' := by
  obtain ⟨rfl, hagain⟩ := idle_of_sweep Natives.patient_builtin h hreductions hsealed
  exact ⟨rfl, hagain⟩

end Effect

/-- A class with two properties that wait for each other. -/
def knot : ClassBody where
  properties :=
    [⟨"a", .visible, .int, some (.member (.this .main) "b" .int)⟩,
      ⟨"b", .visible, .int, some (.member (.this .main) "a" .int)⟩]

/-- What is left of an object of the class when its evaluation has come to a standstill. -/
def World.ofKnot : World Unit :=
  (Effect.run .builtin {} ⟨0⟩).after
    ((Effect.construct .builtin .main []).after (.ofTypes (.ofClass knot) ()))

/-- At the standstill, both properties are still to be evaluated, and a sweep finds nothing to
do. -/
theorem Effect.sweep_fixed_knot :
    ∃ cost w', sweep .builtin .declared ⟨0⟩ World.ofKnot = .ok cost w' ∧
      cost.reductions = 0 ∧ cost.sealed = 0 ∧ cost.instances = 1 ∧
      (World.ofKnot.heap.get ⟨0⟩).values.all (!·.isTerminal) = true ∧
      (w' = World.ofKnot ∧ ∀ order', sweep .builtin order' ⟨0⟩ w' = .ok cost w') := by
  have hcost : (match sweep .builtin .declared ⟨0⟩ World.ofKnot with
      | .ok cost _ => decide (cost.reductions = 0 ∧ cost.sealed = 0 ∧ cost.instances = 1)
      | .error _ _ => false) = true := by
    decide +kernel
  have hopen : (World.ofKnot.heap.get ⟨0⟩).values.all (!·.isTerminal) = true := by decide +kernel
  generalize World.ofKnot = w at hcost hopen ⊢
  cases hsweep : sweep .builtin .declared ⟨0⟩ w with
  | error e w' => rw [hsweep] at hcost; cases hcost
  | ok cost w' =>
    rw [hsweep] at hcost
    obtain ⟨hreductions, hsealed, hinstances⟩ := of_decide_eq_true hcost
    exact ⟨cost, w', rfl, hreductions, hsealed, hinstances, hopen,
      sweep_fixed hsweep hreductions hsealed⟩

end ObjectGraph
