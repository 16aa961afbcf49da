import ObjectGraph.Proofs.Run.Simulation
import ObjectGraph.Proofs.Run.Steps

/-!
# Virtual dispatch

A method's name is bound in each constructor scope of an instance that knows a method of this name,
to the method that the instance's class answers it with. So the name comes to this method in the
bodies of all ancestors, and with the instance for receiver, which is the same function that the
member of the name is (`Effect.construct_dispatches`). It stays so as long as the binding is not
assigned to: evaluation adds types, scopes and instances, and what was there before is found where
it was (`World.Extends`).
-/

namespace ObjectGraph

variable {σ α β : Type} {natives : Natives σ}

/-! ## What is found later -/

/-- What is found in the first world is found in the second one as well. -/
structure World.Extends (w w' : World σ) : Prop where
  /-- Types stay. -/
  types : w.types.Extends w'.types
  /-- Names that are bound lead to the same bindings. -/
  lookup : ∀ {s name found}, w.heap.lookup? s name = some found →
    w'.heap.lookup? s name = some found
  /-- Receivers stay. -/
  receiver : ∀ {s id}, w.heap.receiver? s = some id → w'.heap.receiver? s = some id
  /-- No instance is dropped. -/
  size : w.heap.instances.size ≤ w'.heap.instances.size
  /-- Instances are of the same types. -/
  ty : ∀ {id : InstanceId}, id.index < w.heap.instances.size →
    (w'.heap.get id).ty = (w.heap.get id).ty

namespace World.Extends

variable {w w' w'' : World σ}

/-- Worlds whose registry and heap are extended. -/
theorem of_heap (ht : w.types.Extends w'.types) (hh : w.heap.Extends w'.heap) : w.Extends w' :=
  ⟨ht, hh.lookup, hh.receiver, hh.size, hh.ty⟩

/-- Every world extends itself. -/
theorem refl (w : World σ) : w.Extends w := of_heap .refl .refl

/-- Extensions compose. -/
theorem trans (a : w.Extends w') (b : w'.Extends w'') : w.Extends w'' where
  types := a.types.trans b.types
  lookup hl := b.lookup (a.lookup hl)
  receiver hr := b.receiver (a.receiver hr)
  size := Nat.le_trans a.size b.size
  ty hid := (b.ty (Nat.lt_of_lt_of_le hid a.size)).trans (a.ty hid)

/-- Scopes and instances are all that matters of the heap. -/
theorem of_eq (ht : w.types.Extends w'.types) (hs : w'.heap.scopes = w.heap.scopes)
    (hi : w'.heap.instances = w.heap.instances) : w.Extends w' where
  types := ht
  lookup hl := (w.heap.lookup?_of_scopes_eq w'.heap hs _ _).trans hl
  receiver hr := (w.heap.receiver?_of_scopes_eq w'.heap hs _).trans hr
  size := Nat.le_of_eq (congrArg Array.size hi).symm
  ty _ := by rw [Heap.get, Heap.get, hi]

/-- Any cell may be written. -/
theorem write (w : World σ) (c : Cell) (e : Expr) :
    w.Extends { w with heap := w.heap.write c e } where
  types := .refl
  lookup hl := (w.heap.lookup?_write c e _ _).trans hl
  receiver hr := (w.heap.receiver?_write c e _).trans hr
  size := Nat.le_of_eq (w.heap.size_instances_write c e).symm
  ty _ := w.heap.ty_write c e _

/-- Instances may be marked as final. -/
theorem markAllSealed (w : World σ) (ids : List InstanceId) :
    w.Extends { w with heap := w.heap.markAllSealed ids } := by
  refine of_heap .refl ?_
  show w.heap.Extends (ids.foldl Heap.markSealed w.heap)
  generalize w.heap = h
  induction ids generalizing h with
  | nil => exact .refl
  | cons id ids ih => exact (h.extends_markSealed id).trans (ih _)

end World.Extends

/-- What passes do extends a world. -/
theorem simulates_extends (w₀ : World σ) :
    Simulates Eq fun w w' : World σ => w' = w ∧ w₀.Extends w where
  same _ := rfl
  types := fun ⟨heq, _⟩ => congrArg World.types heq
  heap := fun ⟨heq, _⟩ => heq ▸ .refl (fun _ => .inl rfl) _
  onTypes := fun ⟨heq, hx⟩ ht => ⟨by rw [heq], hx.trans (.of_heap ht .refl)⟩
  allocScope := fun {w w' sc sc'} ⟨heq, hx⟩ hsc =>
    ⟨by rw [heq, hsc.eq], hx.trans (.of_heap .refl (w.heap.extends_allocScope sc))⟩
  allocInstance := fun {w w'} i ⟨heq, hx⟩ =>
    ⟨by rw [heq], hx.trans (.of_heap .refl (w.heap.extends_allocInstance i))⟩
  assign := fun {w w' e} s i ⟨heq, hx⟩ _ => ⟨by rw [heq], hx.trans (.write w _ e)⟩
  setPromise := fun {w w'} id p ⟨heq, hx⟩ => ⟨by rw [heq], hx.trans (.of_eq .refl rfl rfl)⟩

/-- What holds of two runs of the same step holds of the step. -/
theorem EndAlike.ends {ε τ : Type} {S : τ → τ → Prop} {step : EStateM ε τ α} {s : τ}
    (h : EndAlike Eq S (step s) (step s)) : Ends step s (fun _ t => S t t) fun _ t => S t t := by
  unfold Ends
  cases hs : step s with
  | ok a t =>
    rw [hs] at h
    cases h with
    | ok _ state => exact state
  | error e t =>
    rw [hs] at h
    cases h with
    | error state => exact state

/-- **A pass extends the world**, whatever it goes over and whether it fails or not. -/
theorem Expr.reduce_extends (hn : natives.Observant) (scope : Option ScopeId) (e : Expr)
    (s : Pass σ) : Ends (e.reduce natives scope) s (fun _ t => s.world.Extends t.world)
      fun _ t => s.world.Extends t.world :=
  (e.simulated (simulates_extends s.world) hn scope s s ⟨rfl, rfl, .refl _⟩).ends.mono
    (fun _ _ h => h.2.2) fun _ _ h => h.2.2

namespace World

variable {w w' : World σ}

/-- A step of an evaluation extends the world. -/
theorem Step.extends_world (hn : natives.Observant) (hi : natives.Inert) (h : Step natives w w') :
    w.Extends w' := by
  cases h with
  | @construct cls args hargs =>
    have hbuilt : Alike Eq (fun w₁ w₁' => w₁' = w₁ ∧ w.Extends w₁)
        (Effect.construct natives cls args) (Effect.construct natives cls args) :=
      (simulates_extends w).construct cls (List.forall₂_same.mpr fun _ _ => rfl)
    exact ((hbuilt w w ⟨rfl, .refl w⟩).ends.mono (fun _ _ h => h.2) fun _ _ h => h.2).after
  | pass c =>
    -- There may be no such cell, or nothing to do in it.
    refine Ends.after (P := w.Extends) (Ends.bind (Ends.of_ok (Effect.read_apply _ w) ?_))
    split
    · exact Ends.of_ok rfl (.refl w)
    · split
      · exact Ends.of_ok rfl (.refl w)
      · rename_i e _ _
        refine Ends.bind (Effect.ends_pass ?_)
        refine (e.reduce_extends hn none ⟨w, 0⟩).mono (fun e' t ht => ?_) fun _ _ h => h
        exact Ends.bind (Ends.of_ok (Effect.modifyHeap_apply _ _)
          (Ends.of_ok rfl (ht.trans (.write _ c e'))))
  | @seals ids hids =>
    refine Ends.after (P := w.Extends) (Ends.bind (Ends.of_ok rfl ?_))
    exact Ends.of_ok (Effect.sealEach_eq_markAllSealed hi _ w) (.markAllSealed w _)
  | await ids =>
    exact .of_eq .refl (Heap.scopes_await ids w.heap) (Heap.instances_await ids w.heap)

/-- Steps one after the other extend the world. -/
theorem Later.extends_world (hn : natives.Observant) (hi : natives.Inert)
    (h : Later natives w w') : w.Extends w' := by
  induction h with
  | refl => exact .refl w
  | tail _ hstep ih => exact ih.trans (hstep.extends_world hn hi)

end World

/-! ## Names of methods -/

namespace Heap

variable {h : Heap} {s : ScopeId} {name : String} {i : ℕ}

/-- A name that is bound among bindings is found among them. -/
theorem exists_findIdx?_name {bs : List Binding} {b : Binding} (hb : b ∈ bs) :
    ∃ j, bs.findIdx? (·.name == b.name) = some j := by
  rw [← Option.isSome_iff_exists, List.findIdx?_isSome, List.any_eq_true]
  exact ⟨b, hb, beq_self_eq_true _⟩

/-- A name that a scope binds once leads there from the scope. -/
theorem lookup?_of_bindsOnce {e : Expr} (hb : (h.scope s).BindsOnce name i e) :
    h.lookup? s name = some ⟨s, i⟩ := by
  obtain ⟨b, hi, rfl, -⟩ := hb.bound
  obtain ⟨j, hj⟩ := exists_findIdx?_name (List.mem_of_getElem? hi)
  obtain ⟨hlt, hfirst, -⟩ := List.findIdx?_eq_some_iff_getElem.mp hj
  obtain rfl := hb.once (List.getElem?_eq_getElem hlt) (eq_of_beq hfirst)
  rw [lookup?, chain, List.findSome?_cons, hj]
  rfl

/-- A name that leads to a scope from that scope leads there from every scope inside of it between
which nothing binds the name. -/
theorem lookup?_of_chain {inner : ScopeId} {nearer outer : List ScopeId}
    (hl : h.lookup? s name = some ⟨s, i⟩) (hchain : h.chain inner = nearer ++ s :: outer)
    (hnearer : ∀ t ∈ nearer, ∀ b ∈ (h.scope t).bindings, b.name ≠ name) :
    h.lookup? inner name = some ⟨s, i⟩ := by
  -- The binding is the first one of the name in the scope.
  obtain ⟨b, hb, rfl⟩ := Option.map_eq_some_iff.mp (h.name_of_lookup? hl)
  obtain ⟨j, hj⟩ := exists_findIdx?_name (List.mem_of_getElem? hb)
  rw [lookup?, chain, List.findSome?_cons, hj] at hl
  obtain ⟨-, rfl⟩ := BindingRef.mk.inj (Option.some.inj hl)
  rw [lookup?, hchain]
  refine List.findSome?_eq_some_iff.mpr ⟨nearer, s, outer, rfl, by rw [hj]; rfl, fun t ht => ?_⟩
  rw [Option.map_eq_none_iff, List.findIdx?_eq_none_iff]
  exact fun b hb => beq_false_of_ne (hnearer t ht b hb)

end Heap

/-- The name of a method that a constructor scope binds at an index leads to one function, by itself
and as a member of the instance. -/
structure World.Dispatches (w : World σ) (id : InstanceId) (s : ScopeId) (i : ℕ) (name : String)
    (m : MethodRef) : Prop where
  /-- Where no nearer scope binds the name, and as long as nothing has been assigned to it, it comes
  to the method with the instance for receiver. -/
  bound : w.heap.read? (.binding s i) = some (.unbound m) →
    ∀ {inner nearer outer}, w.heap.chain inner = nearer ++ s :: outer →
      (∀ t ∈ nearer, ∀ b ∈ (w.heap.scope t).bindings, b.name ≠ name) →
        ∀ (natives : Natives σ) (e : Expr) (ty : TypeId) (n : ℕ),
          e = .variable name ty ∨ e = .param name ty →
            e.reduce natives (some inner) ⟨w, n⟩ = .ok (.function m id) ⟨w, n + 1⟩
  /-- Where no property has the name, the member of the instance comes to the same. -/
  member : (w.heap.get id).slot? name = none →
    Effect.resolveSlot id name w = .ok (some (.function m id)) w

/-- A name that is bound to a method comes to the method, with the receiver of the scope that binds
it. -/
theorem Reduction.name_of_unbound {w : World σ} {inner : ScopeId} {name : String}
    {found : BindingRef} {m : MethodRef} {id : InstanceId} (e : Expr) (n : ℕ)
    (hl : w.heap.lookup? inner name = some found)
    (hread : w.heap.read? (.binding found.scope found.index) = some (.unbound m))
    (hreceiver : w.heap.receiver? found.scope = some id) :
    Reduction.name (some inner) e name ⟨w, n⟩ = .ok (.function m id) ⟨w, n + 1⟩ := by
  unfold Reduction.name
  rw [bind_of_ok (look_apply _ _)]
  simp only [Option.bind_some, hl]
  rw [bind_of_ok (look_apply _ _)]
  simp only [hread]
  rw [bind_of_ok (look_apply _ _)]
  simp only [hreceiver]
  rfl

/-- A member that is no property comes to the method of the instance's type, with the instance for
receiver. -/
theorem Effect.resolveSlot_of_method {w : World σ} {id : InstanceId} {name : String} {m : MethodRef}
    (hslot : (w.heap.get id).slot? name = none)
    (hmethod : w.types.findMethod (w.heap.get id).ty name = some m) :
    resolveSlot id name w = .ok (some (.function m id)) w := by
  unfold resolveSlot
  rw [instanceOf, bind_of_ok (read_apply _ w)]
  simp only [hslot]
  rw [bind_of_ok (read_apply _ w)]
  simp only [hmethod]
  rfl

/-- **Names of methods are dispatched on the class of the instance.** Construction makes one scope
for each type of the class's lineage. Each of these binds every method name that its type knows and
that is no parameter of the type, once, to the method that the class answers the name with. Whatever
extends the world then, the name and the member of the instance come to that method with the
instance for receiver; and evaluation does extend the world. -/
theorem Effect.construct_dispatches (natives : Natives σ) {w : World σ} (h : w.types.Hierarchy)
    {cls : TypeId} (hcls : cls.index < w.types.size) (args : List Expr) :
    ∃ id w', construct natives cls args w = .ok id w' ∧ World.Constructs cls args w id w' ∧
      (∀ ty s, (ty, s) ∈ (w'.heap.get id).scopes →
        ∀ t ∈ w.types.lineage ty, ∀ m ∈ (w.types.definition t).methods,
          m.name ∉ (w.types.definition ty).params.map (·.name) →
            ∃ i found, w.types.findMethod cls m.name = some found ∧
              (w'.heap.scope s).BindsOnce m.name i (.unbound found) ∧
              ∀ w₂, w'.Extends w₂ → w₂.Dispatches id s i m.name found) ∧
      ∀ w₂, w'.Later .builtin w₂ → w'.Extends w₂ ∧ ∀ (e : Expr) scope n,
        Ends (e.reduce .builtin scope) ⟨w₂, n⟩ (fun _ t => w'.Extends t.world)
          fun _ t => w'.Extends t.world := by
  obtain ⟨id, w', hok, hmade⟩ := construct_wires natives h hcls args
  refine ⟨id, w', hok, hmade, fun ty s hs t ht m hm hnot => ?_, fun w₂ hlater => ?_⟩
  · obtain ⟨args', hwired⟩ := hmade.wires.exists_args (List.mem_reverse.mpr hs)
    obtain ⟨i, found, hfound, hbinds⟩ := hwired.methods ht hm hnot
    have hreceiver : w'.heap.receiver? s = some id := by
      rw [Heap.receiver?, Heap.chain, List.findSome?_cons, hwired.receiver]
    refine ⟨i, found, hfound, hbinds, fun w₂ hx => ⟨?_, fun hslot => ?_⟩⟩
    · intro hread inner nearer outer hchain hnearer natives e ty' n he
      have hl := Heap.lookup?_of_chain (hx.lookup (Heap.lookup?_of_bindsOnce hbinds)) hchain hnearer
      rcases he with rfl | rfl
      all_goals
        rw [Expr.reduce]
        exact Reduction.name_of_unbound _ n hl hread (hx.receiver hreceiver)
    · -- The instance is still of the class, and the class still answers with the method.
      have hid : id.index < w'.heap.instances.size := by
        rw [hmade.fresh, hmade.size]
        exact Nat.lt_succ_self _
      have hmethod : w₂.types.findMethod (w₂.heap.get id).ty m.name = some found := by
        rw [hx.ty hid, hmade.ty, h.findMethod (hmade.extends_types.trans hx.types) hcls, hfound]
      exact resolveSlot_of_method hslot hmethod
  · have hx := hlater.extends_world Natives.observant_builtin Natives.inert_builtin
    refine ⟨hx, fun e scope n => ?_⟩
    exact (e.reduce_extends Natives.observant_builtin scope ⟨w₂, n⟩).mono
      (fun _ _ ht => hx.trans ht) fun _ _ ht => hx.trans ht

/-! ## An overridden method -/

/-- `B` extends `A` and overrides a method of it. Each takes a parameter, and `B` hands its own one
up. -/
def Registry.overriding : Registry :=
  (twoClasses.defineClass ⟨7⟩
      { params := [⟨"x", .int⟩]
        methods := [{ name := "name", params := [], generics := [], result := .string
                      body := some ⟨[.result (.string "A")], .string⟩, declaring := ⟨7⟩ }] }
    ).defineClass ⟨8⟩
      { parent := some ⟨7⟩
        parentArgs := [.param "y" .int]
        params := [⟨"y", .int⟩]
        methods := [{ name := "name", params := [], generics := [], result := .string
                      body := some ⟨[.result (.string "B")], .string⟩, declaring := ⟨8⟩ }] }

/-- In the constructor scope of `A`, the name comes to the method of `B`, and so does the member of
the instance. -/
theorem Effect.construct_dispatches_overriding :
    Registry.overriding.Hierarchy ∧
      ∃ id w', construct .builtin ⟨8⟩ [.int 1] (World.ofTypes .overriding ()) = .ok id w' ∧
        ∃ s, (w'.heap.get id).constructorScope? ⟨7⟩ = some s ∧
          (Expr.variable "name" .any).reduce .builtin (some s) ⟨w', 0⟩ =
            .ok (.function ⟨⟨8⟩, 0⟩ id) ⟨w', 1⟩ ∧
          resolveSlot id "name" w' = .ok (some (.function ⟨⟨8⟩, 0⟩ id)) w' := by
  have hparents : ∀ i < Registry.overriding.size, ∀ p ∈ Registry.overriding.parent ⟨i⟩,
      p.index < i := by
    decide +kernel
  have hierarchy : Registry.overriding.Hierarchy :=
    ⟨Registry.loopFree_of_lt hparents, fun {ty parent} hp =>
      have hty := Registry.lt_size_of_parent hp
      Nat.lt_trans (hparents ty.index hty parent hp) hty⟩
  have hcls : (⟨8⟩ : TypeId).index < Registry.overriding.size := by decide +kernel
  obtain ⟨id, w', hok, hmade, hnames, -⟩ :=
    construct_dispatches .builtin (w := World.ofTypes .overriding ()) hierarchy hcls [.int 1]
  obtain ⟨s, hs⟩ : ∃ s, (⟨7⟩, s) ∈ (w'.heap.get id).scopes := by
    have hmem : ⟨7⟩ ∈ (w'.heap.get id).scopes.map (·.1) := by
      rw [hmade.ancestors]
      show ⟨7⟩ ∈ Registry.overriding.ancestors ⟨8⟩
      decide +kernel
    obtain ⟨⟨_, s⟩, hs, rfl⟩ := List.mem_map.mp hmem
    exact ⟨s, hs⟩
  have hscope : (w'.heap.get id).constructorScope? ⟨7⟩ = some s := by
    refine Instance.constructorScope?_of_mem ?_ hs
    rw [hmade.ancestors, Registry.ancestors, List.nodup_reverse]
    exact hierarchy.loopFree.nodup_lineage ⟨8⟩
  obtain ⟨i, found, hfound, hbinds, hdispatches⟩ := hnames ⟨7⟩ s hs ⟨7⟩ List.mem_cons_self _
    (show _ ∈ (Registry.overriding.definition ⟨7⟩).methods from List.mem_cons_self)
    (by decide +kernel)
  obtain rfl : found = ⟨⟨8⟩, 0⟩ := Option.some.inj (hfound.symm.trans rfl)
  obtain ⟨hbound, hmember⟩ := hdispatches w' (.refl w')
  have hread : w'.heap.read? (.binding s i) = some (.unbound ⟨⟨8⟩, 0⟩) := by
    obtain ⟨b, hb, -, hexpr⟩ := hbinds.bound
    rw [Heap.read?, hb, Option.map_some, hexpr]
  -- There is no property of the name, which would come before the method.
  have hslot : (w'.heap.get id).slot? "name" = none := by
    obtain ⟨id', w'', native, scopes, hok', hx, hscopes, hget⟩ :=
      construct_spec .builtin ⟨8⟩ [.int 1] (World.ofTypes .overriding ())
    obtain ⟨rfl, rfl⟩ := EStateM.Result.ok.inj (hok.symm.trans hok')
    have hnone : Registry.overriding.propertyNames ⟨8⟩ = [] := by decide +kernel
    have hnames : (initialSlots w'.types native id scopes).map (·.name) = [] :=
      (Registry.map_name_initialSlots hscopes fun t ht =>
        hx.definition (Registry.lt_size_of_mem_lineage hierarchy.parents hcls ht)).trans hnone
    rw [hget, Instance.slot?, List.map_eq_nil_iff.mp hnames, List.find?_nil]
  have hchain : w'.heap.chain s = [] ++ s :: w'.heap.outerWithin w'.heap.scopes.size s := rfl
  exact ⟨hierarchy, id, w', hok, s, hscope,
    hbound hread hchain (fun t ht => absurd ht List.not_mem_nil) .builtin _ .any 0 (.inl rfl),
    hmember hslot⟩

end ObjectGraph
