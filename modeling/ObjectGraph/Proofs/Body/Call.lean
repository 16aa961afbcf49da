import ObjectGraph.Proofs.Body.Pass

/-!
# Calls

A property that calls a method of its own object with literals for all parameters enters the method's
body in one pass (`Call.reduce`): the method is found, the literals become instances, and a scope is
opened in which the parameters are bound to them.
-/

namespace ObjectGraph

variable {σ : Type} {natives : Natives σ}

/-- A call of a method on the object itself, with literals as arguments. -/
structure Call where
  /-- The position of the method in its class. -/
  index : ℕ
  /-- The method. -/
  method : Method
  /-- The method's body. -/
  body : Body
  /-- The arguments. -/
  args : List Scalar
  /-- The generic arguments. -/
  typeArgs : TypeArgs
  /-- The types that are recorded for the receiver, the callee and the call. -/
  types : TypeId × TypeId × TypeId

namespace Call

/-- The call as an expression. -/
def expr (c : Call) : Expr :=
  .call (.member (.this c.types.1) c.method.name c.types.2.1) (c.args.map .scalar) c.typeArgs
    c.types.2.2

/-- A call mentions nothing. -/
theorem handles_expr (c : Call) (h : Heap) : h.handles c.expr = [] := by
  have hargs (args : List Scalar) : (preorderAll (args.map .scalar)).flatMap h.ownHandles = [] := by
    induction args with
    | nil => rfl
    | cons v args ih =>
      rw [List.map_cons, preorderAll, List.flatMap_append, ih]
      rfl
  rw [Heap.handles, expr, Expr.preorder, List.flatMap_cons, List.flatMap_append, hargs]
  rfl

/-- The parameters with the values of the arguments. -/
def vars (c : Call) : Variables := (c.method.params.map (·.name)).zip c.args

/-- How much there is to do in a call. -/
def work (c : Call) : ℕ := stmtsWeight c.body.stmts + c.args.length + 6

/-- The call is one of a method of the class, whose body is plain and race-free. The body comes to
the result when its statements run one after the other. -/
structure ComesTo (c : Call) (d : TypeDef) (r : Option Scalar) : Prop where
  /-- No property has the method's name. -/
  property : d.property? c.method.name = none
  /-- The method is found by its name. -/
  index : d.methodIndex? c.method.name = some c.index
  /-- The method is at its place. -/
  method : d.methods[c.index]? = some c.method
  /-- It has the body. -/
  body : c.method.body = some c.body
  /-- Every parameter is given. -/
  args : c.method.params.length = c.args.length
  /-- The body holds plain expressions only. -/
  plain : ArePlain c.body.stmts
  /-- No variable is assigned after an initializer that mentions it. -/
  raceFree : raceFree [] c.body.stmts = true
  /-- This is what the body comes to. -/
  result : interpret c.vars c.body.stmts = .ok r

end Call

/-- Parameters that are bound to instances. -/
def bindInstances (params : List Param) (ids : List InstanceId) : List Binding :=
  List.zipWith (fun p id => ⟨p.name, .object id, p.ty⟩) params ids

section BindInstances

variable {params : List Param} {ids : List InstanceId}

/-- What the parameters are bound to. -/
theorem expr_bindInstances {b : Binding} (hb : b ∈ bindInstances params ids) :
    ∃ id, b.expr = .object id := by
  obtain ⟨i, hi⟩ := List.mem_iff_getElem?.mp hb
  obtain ⟨p, id, -, -, rfl⟩ := List.getElem?_zipWith_eq_some.mp hi
  exact ⟨id, rfl⟩

/-- Parameters keep their names. -/
theorem map_name_bindInstances (hlength : params.length = ids.length) :
    (bindInstances params ids).map (·.name) = params.map (·.name) := by
  induction params generalizing ids with
  | nil => rfl
  | cons p params ih =>
    cases ids with
    | nil => cases hlength
    | cons id ids => exact congrArg _ (ih (Nat.succ.inj hlength))

/-- Each parameter is bound to the instance of its value. -/
theorem forall₂_bindInstances {R : InstanceId → Scalar → Prop} {values : List Scalar}
    (hids : List.Forall₂ R ids values) (hlength : params.length = ids.length) :
    List.Forall₂ (fun (b : Binding) v => ∃ id, b.expr = .object id ∧ R id v)
      (bindInstances params ids) values := by
  induction hids generalizing params with
  | nil =>
    cases params with
    | nil => exact .nil
    | cons p params => cases hlength
  | @cons id v ids values hid _ ih =>
    cases params with
    | nil => cases hlength
    | cons p params => exact .cons ⟨id, rfl, hid⟩ (ih (Nat.succ.inj hlength))

/-- Nothing is to do in them. -/
theorem total_weight_bindInstances :
    total (fun b : Binding => b.expr.weight) (bindInstances params ids) = 0 := by
  have hzero : ∀ b ∈ bindInstances params ids, b.expr.weight ≤ (fun _ => 0) b := by
    intro b hb
    obtain ⟨id, hid⟩ := expr_bindInstances hb
    rw [hid]
    exact Nat.le_refl _
  have hsum (bindings : List Binding) : total (fun _ => 0) bindings = 0 := by
    induction bindings with
    | nil => rfl
    | cons b bindings ih => rw [total, ih]
  exact Nat.le_zero.mp (Nat.le_trans (total_le hzero) (Nat.le_of_eq (hsum _)))

end BindInstances

/-- An object of a class that is being evaluated. -/
structure World.HasObject (natives : Natives σ) (cls : TypeId) (d : TypeDef) (w : World σ) :
    Prop where
  /-- The class has its definition. -/
  definition : w.types.definition cls = d
  /-- Its methods are the nearest. -/
  lineage : w.types.lineage cls = [cls, .any]
  /-- It has no plugin. -/
  plain : natives.nearest? w.types cls = none
  /-- The object is one of the class. -/
  ty : (w.heap.get ⟨0⟩).ty = cls
  /-- It has the properties of the class. -/
  names : (w.heap.get ⟨0⟩).slots.map (·.name) = d.properties.map (·.name)
  /-- Its own constructor scope is the first one on the heap. -/
  scope : (w.heap.get ⟨0⟩).constructorScope? cls = some ⟨0⟩
  /-- It is the receiver there. -/
  receiver : w.heap.receiver? ⟨0⟩ = some ⟨0⟩

/-- The object of a class stays one in every extension. -/
theorem World.HasObject.extend {cls : TypeId} {d : TypeDef} {w : World σ}
    (ho : w.HasObject natives cls d) (hplaced : 0 < w.heap.instances.size) {h : Heap}
    (hx : w.heap.Extends h) : ({ w with heap := h } : World σ).HasObject natives cls d where
  definition := ho.definition
  lineage := ho.lineage
  plain := ho.plain
  ty := (hx.ty hplaced).trans ho.ty
  names := (hx.names hplaced).trans ho.names
  scope := by
    rw [Instance.constructorScope?, hx.scopes hplaced]
    exact ho.scope
  receiver := hx.receiver ho.receiver

namespace Reduction

/-- A method of the object, as the callee of a call. -/
theorem reduce_callee {cls : TypeId} {d : TypeDef} {s : Pass σ}
    (ho : World.HasObject natives cls d s.world) {name : String} {i : ℕ}
    (hproperty : d.property? name = none) (hindex : d.methodIndex? name = some i)
    (thisTy ty : TypeId) :
    (Expr.member (.this thisTy) name ty).reduce natives (some ⟨0⟩) s =
      .ok (.function ⟨cls, i⟩ ⟨0⟩) { s with reductions := s.reductions + 2 } := by
  have hthis : (Expr.this thisTy).reduce natives (some ⟨0⟩) s =
      .ok (.object ⟨0⟩) { s with reductions := s.reductions + 1 } := by
    show Reduction.this (some ⟨0⟩) s = _
    unfold Reduction.this
    rw [bind_of_ok (look_apply _ s), Option.bind_some, ho.receiver]
    rfl
  -- No property hides the method.
  have hslot : (s.world.heap.get ⟨0⟩).slot? name = none := by
    refine List.find?_eq_none.mpr fun slot hslot hname => ?_
    have hmem : name ∈ d.properties.map (·.name) := by
      rw [← ho.names, ← eq_of_beq hname]
      exact List.mem_map.mpr ⟨slot, hslot, rfl⟩
    obtain ⟨p, hp, hpname⟩ := List.mem_map.mp hmem
    exact List.find?_eq_none.mp hproperty p hp (beq_iff_eq.mpr hpname)
  have hmethod : s.world.types.findMethod cls name = some ⟨cls, i⟩ := by
    rw [Registry.findMethod, ho.lineage, List.findSome?_cons, ho.definition, hindex]
    rfl
  have hplugin (n : ℕ) : pluginOf natives ⟨0⟩ ⟨s.world, n⟩ = .ok .plainClass ⟨s.world, n⟩ := by
    rw [pluginOf_apply, Natives.pluginFor, ho.ty, ho.plain]
    rfl
  have hanswer : (Plugin.plainClass.property ⟨0⟩ name : Effect σ _) s.world =
      .ok (some (.function ⟨cls, i⟩ ⟨0⟩)) s.world := by
    show Effect.resolveSlot ⟨0⟩ name s.world = _
    unfold Effect.resolveSlot
    rw [bind_of_ok (Effect.instanceOf_apply ⟨0⟩ s.world)]
    simp only [hslot]
    rw [bind_of_ok (Effect.read_apply _ s.world), ho.ty]
    simp only [hmethod]
    rfl
  refine (bind_of_ok hthis).trans ?_
  unfold member
  simp only
  refine (bind_of_ok (hplugin _)).trans ?_
  exact bind_of_ok (perform_of_ok (s := ⟨s.world, s.reductions + 1⟩) hanswer)

variable (natives) in
/-- Literals become instances. -/
theorem reduceAll_scalars (scope : Option ScopeId) (args : List Scalar) (s : Pass σ) :
    ∃ ids h, s.world.heap.Grows h ∧ List.Forall₂ h.IsScalar ids args ∧
      reduceAll natives scope (args.map .scalar) s =
        .ok (ids.map .object) ⟨{ s.world with heap := h }, s.reductions + args.length⟩ := by
  induction args generalizing s with
  | nil => exact ⟨[], s.world.heap, .refl, .nil, rfl⟩
  | cons v args ih =>
    have hfirst : (Expr.scalar v).reduce natives scope s =
        .ok (.object ⟨s.world.heap.instances.size⟩)
          ⟨{ s.world with heap := (s.world.heap.allocInstance (.ofPayload v.ty (.scalar v))).2 },
            s.reductions + 1⟩ := rfl
    obtain ⟨ids, h, hg, hids, hrest⟩ := ih
      ⟨{ s.world with heap := (s.world.heap.allocInstance (.ofPayload v.ty (.scalar v))).2 },
        s.reductions + 1⟩
    refine ⟨⟨s.world.heap.instances.size⟩ :: ids, h, (Heap.Grows.scalar v .refl).trans hg,
      .cons ((Heap.IsScalar.of_alloc v).extend hg.extension) hids, ?_⟩
    rw [List.map_cons, reduceAll, bind_of_ok hfirst, bind_of_ok hrest]
    simp only [List.length_cons, Nat.add_right_comm s.reductions 1, Nat.add_assoc]
    rfl

/-- Making generic arguments concrete may register types, and does nothing else. -/
theorem concreteArgs_apply (scope : Option ScopeId) (typeArgs : TypeArgs) (s : Pass σ) :
    ∃ typeArgs' types, s.world.types.Extends types ∧
      concreteArgs scope typeArgs s = .ok typeArgs' { s with world := { s.world with types } } := by
  induction typeArgs generalizing s with
  | nil => exact ⟨[], s.world.types, .refl, rfl⟩
  | cons first typeArgs ih =>
    obtain ⟨param, arg⟩ := first
    obtain ⟨arg', types, hx, harg⟩ := concrete_apply scope [] arg s
    obtain ⟨typeArgs', types', hx', hrest⟩ := ih { s with world := { s.world with types } }
    refine ⟨(param, arg') :: typeArgs', types', hx.trans hx', ?_⟩
    rw [concreteArgs, bind_of_ok harg, bind_of_ok hrest]
    rfl

/-- Parameters are bound to the instances in their places. -/
theorem bindArgs_apply (scope : Option ScopeId) (typeArgs : TypeArgs) {params : List Param}
    {ids : List InstanceId} (hlength : params.length = ids.length) (s : Pass σ) :
    bindArgs scope typeArgs params (ids.map .object) s =
      .ok (bindInstances params ids) s := by
  induction params generalizing ids with
  | nil => rfl
  | cons p params ih =>
    cases ids with
    | nil => cases hlength
    | cons id ids =>
      have hrest := ih (Nat.succ.inj hlength)
      have hclose : (Expr.object id).closeOver scope = .object id := by cases scope <;> rfl
      rw [List.map_cons, bindArgs, bind_of_ok hrest, hclose]
      rfl

/-- A method of the object is entered in a new scope below the object's constructor scope. -/
theorem call_apply {cls : TypeId} {d : TypeDef} {s : Pass σ}
    (ho : World.HasObject natives cls d s.world) {c : Call} (hm : d.methods[c.index]? = some c.method)
    (hbody : c.method.body = some c.body) {ids : List InstanceId}
    (hlength : c.method.params.length = ids.length) (scope : Option ScopeId) (ty : TypeId) :
    ∃ typeArgs types, s.world.types.Extends types ∧
      call natives scope (.function ⟨cls, c.index⟩ ⟨0⟩) (ids.map .object) c.typeArgs ty s =
        .ok (.scoped ⟨s.world.heap.scopes.size⟩ (.block c.body.stmts c.body.result))
          ⟨{ s.world with
              types
              heap := (s.world.heap.allocScope
                { parent := some ⟨0⟩
                  receiver := some ⟨0⟩
                  bindings := bindInstances c.method.params ids
                  typeArgs }).2 },
            s.reductions + 1⟩ := by
  have hmethod : s.world.types.method ⟨cls, c.index⟩ = c.method := by
    rw [Registry.method, ho.definition, List.getD_eq_getElem?_getD, hm, Option.getD_some]
  obtain ⟨typeArgs, types, hx, htypeArgs⟩ := concreteArgs_apply scope c.typeArgs s
  refine ⟨typeArgs, types, hx, ?_⟩
  have hbind := bindArgs_apply scope typeArgs hlength { s with world := { s.world with types } }
  have hscope : (s.world.heap.get ⟨0⟩).constructorScope? cls = some ⟨0⟩ := ho.scope
  unfold call
  simp only
  rw [bind_of_ok (look_apply _ s)]
  simp only [hmethod, hbody]
  unfold enter
  rw [bind_of_ok (perform_of_ok (Effect.instanceOf_apply ⟨0⟩ s.world))]
  simp only [hscope]
  rw [bind_of_ok htypeArgs, bind_of_ok hbind]
  rfl

end Reduction

namespace Call

variable {L : Lanes} {s : Pass σ} {lane : Option ℕ} {r : Option Scalar}

/-- **A call enters the method's body** in one pass, with the parameters bound to the arguments. -/
theorem reduce {cls : TypeId} {d : TypeDef} {c : Call} (hc : c.ComesTo d r)
    (ho : World.HasObject natives cls d s.world) (hL : L.Held natives ⟨0⟩ s.world) {n : ℕ}
    (hn : c.work ≤ n) :
    Ends ((Expr.scoped ⟨0⟩ c.expr).reduce natives none) s
      (L.Advanced natives ⟨0⟩ lane r none n (.scoped ⟨0⟩ c.expr) s) fun _ _ => False := by
  have hcallee := Reduction.reduce_callee ho hc.property hc.index c.types.1 c.types.2.1
  obtain ⟨ids, h, hg, hids, hargs⟩ := Reduction.reduceAll_scalars natives (some ⟨0⟩) c.args
    { s with reductions := s.reductions + 2 }
  have hlength : c.method.params.length = ids.length := hc.args.trans hids.length_eq.symm
  obtain ⟨typeArgs, types, hx, hcall⟩ := Reduction.call_apply
    (s := ⟨{ s.world with heap := h }, s.reductions + 2 + c.args.length⟩)
    (ho.extend hL.placed hg.extension) hc.method hc.body hlength (some ⟨0⟩) c.types.2.2
  -- The literals are on the heap now, and the parameters are going to be bound to them.
  have hL' : L.Held natives ⟨0⟩ { s.world with heap := h, types } := (hL.grow hg).types types
  generalize hsc : ({ parent := some ⟨0⟩, receiver := some ⟨0⟩
                      bindings := bindInstances c.method.params ids, typeArgs } : Scope) = sc at hcall
  have hbindings : List.Forall₂ (fun (b : Binding) v =>
      L.Computes h lane none b.expr v ∧ h.Confined ⟨0⟩ b.expr) sc.bindings c.args := by
    rw [← hsc]
    refine (forall₂_bindInstances hids hlength).imp fun b v => ?_
    rintro ⟨id, hid, hv⟩
    rw [hid]
    have hcomputes : L.Computes h lane none (.object id) v :=
      ⟨.object hv, fun c hc => absurd hc List.not_mem_nil, hv.scalar?⟩
    exact ⟨hcomputes, hcomputes.confined hL'⟩
  have hreads : ∀ b ∈ sc.bindings, b.expr.reads (h.allocScope sc).2 none = [] := by
    rw [← hsc]
    intro b hb
    obtain ⟨id, hid⟩ := expr_bindInstances hb
    rw [hid]
    rfl
  have hat : (L.enter lane ⟨h.scopes.size⟩ c.args).At (h.allocScope sc).2 lane ⟨h.scopes.size⟩
      ((sc.bindings.map (·.name)).zip c.args) [] := Lanes.At.entered hL' lane hreads
  have hvars : (sc.bindings.map (·.name)).zip c.args = c.vars := by
    rw [← hsc, map_name_bindInstances hlength]
    rfl
  rw [hvars] at hat
  have hweight : (h.allocScope sc).2.bindingWeight = s.world.heap.bindingWeight := by
    rw [Heap.bindingWeight_allocScope, ← hsc, Scope.weight, total_weight_bindInstances,
      Heap.bindingWeight_of_scopes_eq hg.scopes]
    rfl
  have hbody : c.expr.reduce natives (some ⟨0⟩) s = _ :=
    (bind_of_ok hcallee).trans ((bind_of_ok hargs).trans hcall)
  refine Ends.bind (Ends.of_ok rfl (Ends.bind (Ends.of_ok hbody ?_)))
  -- The constructor scope is not left yet: there have been reductions, and the body is to be run.
  have hstays := Reduction.leave_apply ⟨0⟩ s.reductions
    (.scoped ⟨h.scopes.size⟩ (.block c.body.stmts c.body.result))
    ⟨{ s.world with types, heap := (h.allocScope sc).2 }, s.reductions + 2 + c.args.length + 1⟩
  have hne : ¬s.reductions + 2 + c.args.length + 1 = s.reductions := by omega
  simp only [Expr.isTerminal, hne, decide_false, Bool.false_and, Bool.or_self, Bool.false_eq_true,
    if_false] at hstays
  refine Ends.of_ok hstays ⟨⟨L.enter lane ⟨h.scopes.size⟩ c.args, ?_, ?_, ?_⟩, hx, ?_, ?_,
    fun hred => absurd hred hne⟩
  · refine hL'.enter (fun id hid => ?_) hbindings
    rw [← hsc] at hid
    exact (Option.some.inj hid).symm
  · exact .within (.within (.block _ hat (.written hc.plain hc.raceFree hc.result)))
  · exact (Lanes.Moves.grow hg).trans (.enter hL' hbindings.length_eq)
  · show s.reductions ≤ s.reductions + 2 + c.args.length + 1
    omega
  · show s.reductions + 2 + c.args.length + 1 + ((h.allocScope sc).2.bindingWeight + _) ≤ _
    rw [hweight]
    simp only [Expr.weight]
    simp only [work] at hn
    omega

end Call

end ObjectGraph
