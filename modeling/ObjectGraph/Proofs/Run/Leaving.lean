import ObjectGraph.Proofs.Run.Simulation
import ObjectGraph.Proofs.Types.Linked

/-!
# Leaving a scope behind

An expression that needs nothing from the scope around it may be taken out of the scope. Passes over
a closed expression inside of a scope and outside of all scopes are compared step by step
(`Expr.alike_outside`). They do the same but for one thing: arguments that move into new scopes are
closed over the scope that they come from, if there is one. So the worlds that the two passes leave
are the same up to that (`World.SameUpTo`). It is a difference that the rest of a pass cannot see,
since it does not look into an argument before that is terminal.

A scope is also asked, without being mentioned, what the placeholders in types stand for. The types
of a closed expression mention none, but those of parameters may. They matter where an argument is
left out, so calls must pass all of them (`Expr.Supplied`).
-/

namespace ObjectGraph

variable {σ : Type} {natives : Natives σ}

/-! ## Arguments that have moved -/

/-- The first expression is the second one, or is the second one closed over the scope. -/
def Expr.Wraps (s : ScopeId) (e e' : Expr) : Prop :=
  e = e' ∨ (e'.isTerminal = false ∧ e = .scoped s e')

/-- An expression that is closed over the scope wraps the expression. -/
theorem Expr.wraps_closeOver (s : ScopeId) (e : Expr) :
    (e.closeOver (some s)).Wraps s (e.closeOver none) := by
  unfold closeOver
  dsimp only
  split
  · exact .inl rfl
  · rename_i he
    exact .inr ⟨Bool.eq_false_iff.mpr he, rfl⟩

/-- What is closed over a scope is as pending as before. -/
theorem Expr.Wraps.pending {s : ScopeId} {e e' : Expr} (h : e.Wraps s e') : e.Pending e' := by
  rcases h with rfl | ⟨he', rfl⟩
  · exact .inl rfl
  · exact .inr ⟨rfl, he'⟩

/-- The worlds are the same, but that new scopes of the first one may bind names to expressions that
are closed over `s` where those of the second one bind them to the expressions themselves. Scopes
are new if they are not among the first `old` ones. -/
structure World.SameUpTo (s : ScopeId) (old : ℕ) (w w' : World σ) : Prop where
  /-- The types are the same. -/
  types : w'.types = w.types
  /-- So is what plugins keep. -/
  host : w'.host = w.host
  /-- The heaps are the same up to what scopes bind names to, which differs by `s` at most. -/
  heap : w.heap.Matches (Expr.Wraps s) w'.heap
  /-- The old scopes are the same. -/
  unchanged : ∀ s' : ScopeId, s'.index < old → w'.heap.scope s' = w.heap.scope s'

namespace World.SameUpTo

/-- Every world is the same as itself. -/
theorem refl (s : ScopeId) (old : ℕ) (w : World σ) : w.SameUpTo s old w :=
  ⟨rfl, rfl, .refl (fun _ => .inl rfl) _, fun _ _ => rfl⟩

end World.SameUpTo

/-- What holds of two worlds during two passes that start from a world with the types `base` and
`old` scopes. -/
structure World.Parallel (base : Registry) (s : ScopeId) (old : ℕ) (w w' : World σ) : Prop
    extends w.SameUpTo s old w' where
  /-- No type is lost. -/
  extends_base : base.Extends w.types
  /-- No scope is lost. -/
  grown : old ≤ w.heap.scopes.size

variable {base : Registry} {s : ScopeId} {old : ℕ}

/-- What passes do keeps worlds the same up to arguments that have moved. -/
theorem simulates_parallel :
    Simulates (Expr.Wraps s) (World.Parallel base s old : World σ → World σ → Prop) where
  same _ := .inl rfl
  types h := h.types
  heap h := h.heap.mono fun _ _ => Expr.Wraps.pending
  onTypes h hx := ⟨⟨rfl, h.host, h.heap, h.unchanged⟩, h.extends_base.trans hx, h.grown⟩
  allocScope {w w' sc sc'} h hsc := by
    have hgrown : old ≤ (w.heap.allocScope sc).2.scopes.size :=
      Nat.le_trans h.grown (by simp [Heap.allocScope])
    refine ⟨⟨h.types, h.host, h.heap.allocScope hsc, fun s' hs' => ?_⟩, h.extends_base, hgrown⟩
    -- The scope that is added is not among the old ones.
    have hne : s'.index ≠ w.heap.scopes.size := Nat.ne_of_lt (Nat.lt_of_lt_of_le hs' h.grown)
    have hne' : s'.index ≠ w'.heap.scopes.size := h.heap.size ▸ hne
    exact (Heap.scope_allocScope_of_ne _ sc' hne').trans
      ((h.unchanged s' hs').trans (Heap.scope_allocScope_of_ne _ sc hne).symm)
  allocInstance i h :=
    ⟨⟨h.types, h.host, h.heap.allocInstance i, h.unchanged⟩, h.extends_base, h.grown⟩
  assign {w w' e} s' i h _ := by
    have hgrown : old ≤ (w.heap.write (.binding s' i) e).scopes.size := by
      rw [Heap.size_scopes_write]
      exact h.grown
    refine ⟨⟨h.types, h.host, h.heap.write (.inl rfl) s' i, fun t ht => ?_⟩, h.extends_base, hgrown⟩
    simp only [Heap.write, Heap.scope_modifyScope, h.heap.size, h.unchanged t ht]
  setPromise id p h :=
    ⟨⟨h.types, h.host, h.heap.setPromise id p, h.unchanged⟩, h.extends_base, h.grown⟩

/-! ## Types of closed expressions -/

/-- A type without placeholders is made concrete in the same way everywhere. -/
theorem Registry.Concrete.alike_concrete (hbase : base.Coherent) {ty : TypeId}
    (hty : base.Concrete ty) (scope scope' : Option ScopeId) (own own' : TypeArgs) :
    Alike Eq (Pass.Over (World.Parallel (σ := σ) base s old)) (Reduction.concrete scope own ty)
      (Reduction.concrete scope' own' ty) := by
  rw [Reduction.concrete_eq, Reduction.concrete_eq]
  refine (Alike.look (V := fun _ _ => True) fun _ _ _ => trivial).bind fun {values values'} _ =>
    Alike.perform fun w w' hw => ?_
  have hlt : ty.index < w.types.size := Nat.lt_of_lt_of_le hty.registered hw.extends_base.size
  have hsame : Registry.substitute values' ty w.types = Registry.substitute values ty w.types := by
    refine hbase.substituteWithin_congr hw.extends_base hty.registered hlt hlt fun p hp hk => ?_
    exact absurd hk ((hbase.containsPlaceholder_eq_false_iff hty.registered).mp hty.free p hp)
  have hnext := simulates_parallel.onTypes hw (Registry.Extends.substitute values ty)
  unfold Effect.onTypes
  rw [hw.types, hsame]
  exact .ok rfl hnext

/-- Generic arguments without placeholders are made concrete in the same way everywhere. -/
theorem Registry.Coherent.alike_concreteArgs (hbase : base.Coherent) (scope scope' : Option ScopeId)
    {typeArgs : TypeArgs} (h : ∀ arg ∈ typeArgs, base.Concrete arg.2) :
    Alike Eq (Pass.Over (World.Parallel (σ := σ) base s old))
      (Reduction.concreteArgs scope typeArgs) (Reduction.concreteArgs scope' typeArgs) := by
  induction typeArgs with
  | nil => exact .pure rfl
  | cons arg rest ih =>
    obtain ⟨harg, hrest⟩ := List.forall_mem_cons.mp h
    refine (harg.alike_concrete hbase scope scope' [] []).seq fun ty => ?_
    exact (ih hrest).seq fun args => .pure rfl

/-- A closed call has no placeholders among its generic arguments. -/
theorem Expr.concrete_of_isClosed_call {types : Registry} {callee : Expr} {args : List Expr}
    {typeArgs : TypeArgs} {ty : TypeId}
    (hclosed : (Expr.call callee args typeArgs ty).isClosed types = true)
    (hbelow : (Expr.call callee args typeArgs ty).TypesBelow types.size) :
    ∀ arg ∈ typeArgs, types.Concrete arg.2 := fun arg harg => by
  simp only [isClosed, mentionsPlaceholder, Bool.and_eq_true, Bool.not_eq_true',
    Bool.or_eq_false_iff, List.any_eq_false] at hclosed
  exact ⟨(typesBelow_call.mp hbelow).1.2 arg harg, Bool.eq_false_iff.mpr (hclosed.1.1.2 arg harg)⟩

/-! ## Calls -/

/-- The number of arguments that a callee takes, if it is a function. -/
def Expr.arity (types : Registry) : Expr → ℕ
  | .function m _ => (types.method m).params.length
  | _ => 0

mutual

/-- Each call that a pass makes passes at least as many arguments as the method declares. -/
def Expr.Supplied (natives : Natives σ) (scope : Option ScopeId) : Expr → Pass σ → Prop
  | .member object _ _, s => object.Supplied natives scope s
  | .index object position _, s =>
    object.Supplied natives scope s ∧
      Ends (object.reduce natives scope) s (fun _ t => position.Supplied natives scope t)
        fun _ _ => True
  | .binary op lhs rhs _, s =>
    lhs.Supplied natives scope s ∧
      Ends (lhs.reduce natives scope >>= Reduction.shortCircuit op) s
        (fun decided t => decided = none → rhs.Supplied natives scope t) fun _ _ => True
  | .unary _ operand _, s => operand.Supplied natives scope s
  | .hooked operand _ _, s => operand.Supplied natives scope s
  | .call callee args _ _, s =>
    callee.Supplied natives scope s ∧
      Ends (callee.reduce natives scope) s (fun f t =>
        suppliedAll natives scope args t ∧
          Ends (reduceAll natives scope args) t
            (fun es u => f.arity u.world.types ≤ es.length) fun _ _ => True) fun _ _ => True
  | _, _ => True

/-- So does each call in a list of expressions that a pass goes over. -/
def suppliedAll (natives : Natives σ) (scope : Option ScopeId) : List Expr → Pass σ → Prop
  | [], _ => True
  | e :: es, s =>
    e.Supplied natives scope s ∧
      Ends (e.reduce natives scope) s (fun _ t => suppliedAll natives scope es t) fun _ _ => True

end

mutual

/-- Whether the calls of a pass pass enough arguments can be decided by making them. -/
instance Expr.Supplied.instDecidable (natives : Natives σ) (scope : Option ScopeId) :
    ∀ (e : Expr) (s : Pass σ), Decidable (e.Supplied natives scope s)
  | .member object _ _, s => Expr.Supplied.instDecidable natives scope object s
  | .index object position _, s =>
    haveI := Expr.Supplied.instDecidable natives scope object s
    haveI := fun t => Expr.Supplied.instDecidable natives scope position t
    inferInstanceAs (Decidable (_ ∧ Ends _ _ _ _))
  | .binary _ lhs rhs _, s =>
    haveI := Expr.Supplied.instDecidable natives scope lhs s
    haveI := fun t => Expr.Supplied.instDecidable natives scope rhs t
    inferInstanceAs (Decidable (_ ∧ Ends _ _ _ _))
  | .unary _ operand _, s => Expr.Supplied.instDecidable natives scope operand s
  | .hooked operand _ _, s => Expr.Supplied.instDecidable natives scope operand s
  | .call callee args _ _, s =>
    haveI := Expr.Supplied.instDecidable natives scope callee s
    haveI := fun t => suppliedAll.instDecidable natives scope args t
    inferInstanceAs (Decidable (_ ∧ Ends _ _ _ _))
  | .scalar _, _ | .array _ _, _ | .object _, _ | .this _, _ | .param _ _, _ | .variable _ _, _
  | .new _ _, _ | .promise _ _, _ | .missing _, _ | .scoped _ _, _ | .block _ _, _
  | .unbound _, _ | .function _ _, _ => .isTrue trivial

/-- Likewise for a list of expressions. -/
instance suppliedAll.instDecidable (natives : Natives σ) (scope : Option ScopeId) :
    ∀ (es : List Expr) (s : Pass σ), Decidable (suppliedAll natives scope es s)
  | [], _ => .isTrue trivial
  | e :: es, s =>
    haveI := Expr.Supplied.instDecidable natives scope e s
    haveI := fun t => suppliedAll.instDecidable natives scope es t
    inferInstanceAs (Decidable (_ ∧ Ends _ _ _ _))

end

/-! ## One pass -/

mutual

/-- A pass over a closed expression runs alike inside of a scope and outside of all scopes. -/
theorem Expr.alike_outside (hn : natives.Observant) (hbase : base.Coherent) : ∀ (e : Expr)
    {st st' : Pass σ}, e.isClosed base = true → e.TypesBelow base.size →
    e.Supplied natives (some s) st → Pass.Over (World.Parallel base s old) st st' →
    EndAlike Eq (Pass.Over (World.Parallel base s old)) (e.reduce natives (some s) st)
      (e.reduce natives none st')
  | .scalar value, st, st', _, _, _, hst => by
    rw [Expr.reduce, Expr.reduce]
    exact simulates_parallel.scalar value st st' hst
  | .member object name ty, st, st', hclosed, hbelow, hsupplied, hst => by
    rw [Expr.isClosed, Bool.and_eq_true] at hclosed
    rw [Expr.Supplied] at hsupplied
    rw [Expr.reduce, Expr.reduce]
    have hobject := (Expr.typesBelow_member.mp hbelow).2
    refine (object.alike_outside hn hbase hclosed.2 hobject hsupplied hst).bind
      fun {e _ t t'} _ heq ht => ?_
    subst heq
    exact simulates_parallel.member hn e name ty t t' ht
  | .index object position ty, st, st', hclosed, hbelow, hsupplied, hst => by
    obtain ⟨-, hobject, hposition⟩ := Expr.typesBelow_index.mp hbelow
    rw [Expr.isClosed, Bool.and_eq_true, Bool.and_eq_true] at hclosed
    rw [Expr.Supplied] at hsupplied
    rw [Expr.reduce, Expr.reduce]
    refine (object.alike_outside hn hbase hclosed.1.2 hobject hsupplied.1 hst).bind
      fun {e _ t t'} he heq ht => ?_
    subst heq
    refine (position.alike_outside hn hbase hclosed.2 hposition (hsupplied.2.ok he) ht).bind
      fun {p _ u u'} _ heq hu => ?_
    subst heq
    exact simulates_parallel.index hn e p ty u u' hu
  | .binary op lhs rhs ty, st, st', hclosed, hbelow, hsupplied, hst => by
    obtain ⟨-, hlhs, hrhs⟩ := Expr.typesBelow_binary.mp hbelow
    rw [Expr.isClosed, Bool.and_eq_true, Bool.and_eq_true] at hclosed
    rw [Expr.Supplied] at hsupplied
    rw [Expr.reduce, Expr.reduce]
    refine (lhs.alike_outside hn hbase hclosed.1.2 hlhs hsupplied.1 hst).bind
      fun {l _ t t'} hl heq ht => ?_
    subst heq
    refine (simulates_parallel.shortCircuit op l t t' ht).bind fun {decided _ u u'} hd heq hu => ?_
    subst heq
    cases decided with
    | some decided => exact Alike.become u u' hu
    | none =>
      -- Only now is the right operand gone over, so only now need its calls be supplied.
      have hundecided := hsupplied.2.ok ((bind_of_ok hl).trans hd) rfl
      refine (rhs.alike_outside hn hbase hclosed.2 hrhs hundecided hu).bind
        fun {r _ v v'} _ heq hv => ?_
      subst heq
      exact simulates_parallel.binary hn op l r ty v v' hv
  | .unary op operand ty, st, st', hclosed, hbelow, hsupplied, hst => by
    -- A reflection answers with a type that the scope makes concrete, so it is not closed.
    have hop : op ≠ .typeOf := fun hop => by
      subst hop
      rw [Expr.isClosed] at hclosed
      cases hclosed
    rw [Expr.isClosed, Bool.and_eq_true] at hclosed
    · rw [Expr.Supplied] at hsupplied
      rw [Expr.reduce, Expr.reduce]
      · have hoperand := (Expr.typesBelow_unary.mp hbelow).2
        refine (operand.alike_outside hn hbase hclosed.2 hoperand hsupplied hst).bind
          fun {e _ t t'} _ heq ht => ?_
        subst heq
        exact simulates_parallel.unary hn op e ty t t' ht
      · exact hop
      · exact hop
    · exact hop
  | .new cls args, st, st', _, _, _, hst => by
    rw [Expr.reduce, Expr.reduce]
    exact simulates_parallel.new (Expr.wraps_closeOver s) cls args st st' hst
  | .call callee args typeArgs ty, st, st', hclosed, hbelow, hsupplied, hst => by
    have htypeArgs := Expr.concrete_of_isClosed_call hclosed hbelow
    obtain ⟨-, hcallee, hargs⟩ := Expr.typesBelow_call.mp hbelow
    rw [Expr.isClosed, Bool.and_eq_true, Bool.and_eq_true] at hclosed
    rw [Expr.Supplied] at hsupplied
    rw [Expr.reduce, Expr.reduce]
    refine (callee.alike_outside hn hbase hclosed.1.2 hcallee hsupplied.1 hst).bind
      fun {f _ t t'} hf heq ht => ?_
    subst heq
    -- Both passes go over the arguments where they are. They move when the method is entered.
    obtain ⟨hsuppliedArgs, hcall⟩ := hsupplied.2.ok hf
    refine (alikeAll_outside hn hbase args hclosed.2 hargs hsuppliedArgs ht).bind
      fun {es _ u u'} hes heq hu => ?_
    subst heq
    refine simulates_parallel.call (Expr.wraps_closeOver s) hn hu
      (hbase.alike_concreteArgs (some s) none htypeArgs) (.inr fun m receiver hf => ?_)
    subst hf
    exact hcall.ok hes
  | .hooked operand hook ty, st, st', hclosed, hbelow, hsupplied, hst => by
    rw [Expr.isClosed, Bool.and_eq_true] at hclosed
    rw [Expr.Supplied] at hsupplied
    rw [Expr.reduce, Expr.reduce]
    have hoperand := (Expr.typesBelow_hooked.mp hbelow).2
    refine (operand.alike_outside hn hbase hclosed.2 hoperand hsupplied hst).bind
      fun {e _ t t'} _ heq ht => ?_
    subst heq
    exact simulates_parallel.hooked hn e hook ty t t' ht
  | .promise id ty, st, st', _, _, _, hst => by
    rw [Expr.reduce, Expr.reduce]
    exact simulates_parallel.promise id ty st st' hst
  | .scoped inner body, st, st', _, _, _, hst => by
    -- The body is in a scope of its own on both sides, and need not be closed.
    have hsame : (Expr.scoped inner body).reduce natives (some s) =
        (Expr.scoped inner body).reduce natives none := by rw [Expr.reduce, Expr.reduce]
    rw [hsame]
    exact (Expr.scoped inner body).simulated simulates_parallel hn none st st' hst
  | .object id, st, st', _, _, _, hst => by
    rw [Expr.reduce, Expr.reduce]
    exact .ok rfl hst
  | .missing ty, st, st', _, _, _, hst => by
    rw [Expr.reduce, Expr.reduce]
    exact .ok rfl hst
  | .function method receiver, st, st', _, _, _, hst => by
    rw [Expr.reduce, Expr.reduce]
    exact .ok rfl hst
  | .array _ _, _, _, hclosed, _, _, _ | .this _, _, _, hclosed, _, _, _
  | .param _ _, _, _, hclosed, _, _, _ | .variable _ _, _, _, hclosed, _, _, _
  | .block _ _, _, _, hclosed, _, _, _ | .unbound _, _, _, hclosed, _, _, _ => by
    rw [Expr.isClosed] at hclosed
    cases hclosed

/-- So does a pass over each expression of a list. -/
theorem alikeAll_outside (hn : natives.Observant) (hbase : base.Coherent) : ∀ (es : List Expr)
    {st st' : Pass σ}, allClosed base es = true → (∀ e ∈ es, e.TypesBelow base.size) →
    suppliedAll natives (some s) es st → Pass.Over (World.Parallel base s old) st st' →
    EndAlike Eq (Pass.Over (World.Parallel base s old)) (reduceAll natives (some s) es st)
      (reduceAll natives none es st')
  | [], st, st', _, _, _, hst => by
    rw [reduceAll, reduceAll]
    exact .ok rfl hst
  | e :: es, st, st', hclosed, hbelow, hsupplied, hst => by
    obtain ⟨he, hes⟩ := List.forall_mem_cons.mp hbelow
    rw [allClosed, Bool.and_eq_true] at hclosed
    rw [suppliedAll] at hsupplied
    rw [reduceAll, reduceAll]
    refine (e.alike_outside hn hbase hclosed.1 he hsupplied.1 hst).bind
      fun {e' _ t t'} he' heq ht => ?_
    subst heq
    refine (alikeAll_outside hn hbase es hclosed.2 hes (hsupplied.2.ok he') ht).bind
      fun {es' _ u u'} _ heq hu => ?_
    subst heq
    exact .ok rfl hu

end

/-- **Taking a closed expression out of its scope makes no difference to a pass over it.** Inside of
the scope and outside of all scopes, the pass ends with the same expression after as many
reductions, or fails with the same error, and the worlds are the same up to arguments that have
moved into new scopes, if no call leaves an argument out. -/
theorem Expr.reduce_closed {w : World σ} {e : Expr} (s : ScopeId) (n : ℕ)
    (htypes : w.types.Coherent) (hbelow : e.TypesBelow w.types.size)
    (hclosed : e.isClosed w.types = true) (hsupplied : e.Supplied .builtin (some s) ⟨w, n⟩) :
    EndAlike Eq
      (fun t t' => t.reductions = t'.reductions ∧
        t.world.SameUpTo s w.heap.scopes.size t'.world)
      (e.reduce .builtin (some s) ⟨w, n⟩) (e.reduce .builtin none ⟨w, n⟩) := by
  have hstart : Pass.Over (World.Parallel w.types s w.heap.scopes.size) ⟨w, n⟩ ⟨w, n⟩ :=
    ⟨rfl, .refl s _ w, .refl, Nat.le_refl _⟩
  have halike := e.alike_outside Natives.observant_builtin htypes hclosed hbelow hsupplied hstart
  exact halike.mono (fun _ _ h => h) fun t t' ht => ⟨ht.1, ht.2.toSameUpTo⟩

/-! ## A call with an argument -/

/-- A class with a method that returns its argument. -/
def ClassBody.echoing : ClassBody where
  methods := [{ name := "echo", params := [⟨"x", .int⟩], generics := [], result := .int
                body := some ⟨[.result (.param "x" .int)], .int⟩, declaring := .main }]

namespace World

/-- The world after an instance of the class has been asked for. -/
def withEcho : World Unit :=
  (Effect.construct .builtin .main []).after (.ofTypes (.ofClass .echoing) ())

/-- The instance is asked to return a sum. -/
def echoOfSum : Expr :=
  .call (.member (.object ⟨0⟩) "echo" ⟨8⟩) [.binary .add (.int 1) (.int 2) .int] [] .int

/-- The types of the world fit together. -/
theorem coherent_withEcho : withEcho.types.Coherent := by
  have hclass : Registry.Reachable .free (.ofClass .echoing) :=
    (Relation.ReflTransGen.single (.register (d := .plain "Main" .nominal (some .any)) rfl trivial
      rfl)).tail (.complete .main _ (fun _ => rfl) fun _ => rfl)
  -- The types of its own method and of the inherited one have been asked for.
  have hecho := hclass.tail (.request (.function [.int] .int) ⟨by decide +kernel, nofun⟩)
  have htext := hecho.tail (.request (.function [] .string) ⟨by decide +kernel, nofun⟩)
  exact Registry.Reachable.coherent htext

/-- The pass over the call does not fail. -/
theorem ends_echoOfSum :
    Ends (echoOfSum.reduce .builtin (some ⟨1⟩)) ⟨withEcho, 0⟩ (fun _ _ => True)
      fun _ _ => False := by
  decide +kernel

end World

/-- The call may leave the constructor scope of the class, and is made in the one place as in the
other. -/
theorem Expr.reduce_closed_echo :
    World.echoOfSum.isClosed World.withEcho.types = true ∧
      ∃ r, ∃ t t' : Pass Unit,
        World.echoOfSum.reduce .builtin (some ⟨1⟩) ⟨World.withEcho, 0⟩ = .ok r t ∧
        World.echoOfSum.reduce .builtin none ⟨World.withEcho, 0⟩ = .ok r t' ∧
        t.reductions = t'.reductions ∧
        t.world.SameUpTo ⟨1⟩ World.withEcho.heap.scopes.size t'.world := by
  have hclosed : World.echoOfSum.isClosed World.withEcho.types = true := by decide +kernel
  have hagree := reduce_closed ⟨1⟩ 0 World.coherent_withEcho (by decide +kernel) hclosed
    (by decide +kernel)
  obtain ⟨r, t, hinside, -⟩ := World.ends_echoOfSum.exists_ok
  rw [hinside] at hagree
  cases houtside : World.echoOfSum.reduce .builtin none ⟨World.withEcho, 0⟩ with
  | ok r' t' =>
    rw [houtside] at hagree
    cases hagree with
    | ok heq hstate => exact ⟨hclosed, r, t, t', hinside, heq ▸ rfl, hstate⟩
  | error e t' =>
    rw [houtside] at hagree
    cases hagree

end ObjectGraph
