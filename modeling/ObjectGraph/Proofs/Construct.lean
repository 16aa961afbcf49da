import ObjectGraph.Proofs.Heap.Extension
import ObjectGraph.Proofs.Outcome
import ObjectGraph.Run.Construct
import ObjectGraph.Types.Builtin
import ObjectGraph.Types.Shape

/-!
# Constructing an object

What is on the heap after an object of a class whose parent is `any` has been constructed: two
constructor scopes, and the object with its properties as they are declared
(`construct_ofTypes`). Binding methods may register function types, which leaves the types that
were there as they are (`Registry.Extends`).
-/

namespace ObjectGraph

namespace Registry

/-- The types of `r` are types of `r'`, with the same definitions. -/
structure Extends (r r' : Registry) : Prop where
  /-- No type is dropped. -/
  size : r.size ≤ r'.size
  /-- Definitions stay. -/
  definition : ∀ {ty : TypeId}, ty.index < r.size → r'.definition ty = r.definition ty

/-- The built-in types are at their places. -/
structure HasBuiltins (r : Registry) : Prop where
  /-- There is a type at each of the places. -/
  size : TypeId.builtinCount ≤ r.size
  /-- It is the built-in one. -/
  definition : ∀ {ty : TypeId}, ty.isBuiltin = true →
    r.definition ty = Builtin.defs.getD ty.index default

variable {r : Registry}

namespace Extends

/-- Every registry extends itself. -/
theorem refl : r.Extends r := ⟨Nat.le_refl _, fun _ => rfl⟩

/-- Extensions compose. -/
theorem trans {r' r'' : Registry} (a : r.Extends r') (b : r'.Extends r'') : r.Extends r'' where
  size := Nat.le_trans a.size b.size
  definition hty := (b.definition (Nat.lt_of_lt_of_le hty a.size)).trans (a.definition hty)

/-- A new type extends a registry. -/
theorem insert (d : TypeDef) : r.Extends (Registry.insert d r).2 where
  size := by simp [Registry.insert, Registry.size]
  definition {ty} hty := by
    simp only [Registry.insert, Registry.definition, getD_push]
    exact if_neg (Nat.ne_of_lt hty)

/-- Looking a type up, or adding it, extends a registry. -/
theorem findOrInsert (d : TypeDef) : r.Extends (Registry.findOrInsert d r).2 := by
  unfold Registry.findOrInsert
  cases r.find? d.key with
  | some ty => exact .refl
  | none => exact .insert d

end Extends

/-- A relation of registries that allows for requests: it holds where nothing is done, of steps one
after the other, and where an array type or a function type is asked for. -/
structure Allows (R : Registry → Registry → Prop) : Prop where
  /-- Nothing may be done. -/
  refl : ∀ r, R r r
  /-- One step may follow another. -/
  trans : ∀ {r r' r''}, R r r' → R r' r'' → R r r''
  /-- An array type may be asked for. -/
  arrayOf : ∀ element r, R r (Registry.arrayOf element r).2
  /-- A function type may be asked for. -/
  functionOf : ∀ params result r, R r (Registry.functionOf params result r).2

namespace Allows

variable {R : Registry → Registry → Prop} (h : Allows R)

include h

/-- Two steps may be done one after the other. -/
theorem bind {α β : Type} {first : Registering α} {next : α → Registering β}
    (hfirst : R r (first r).2) (hnext : ∀ a r, R r (next a r).2) : R r ((first >>= next) r).2 :=
  h.trans hfirst (hnext _ _)

/-- Steps may be done for the items of a list. -/
theorem mapM {α β : Type} {step : α → Registering β} {items : List α}
    (hstep : ∀ a r, R r (step a r).2) : R r ((items.mapM step) r).2 := by
  induction items generalizing r with
  | nil => exact h.refl r
  | cons item items ih =>
    rw [List.mapM_cons]
    exact h.bind (hstep item r) fun b r => h.bind ih fun bs r => h.refl r

/-- The type of a method may be asked for. -/
theorem methodType (m : MethodRef) : R r (Registry.methodType m r).2 :=
  h.bind (h.refl r) fun _ _ => h.functionOf _ _ _

/-- Placeholders may be replaced. -/
theorem substituteWithin (replace : TypeId → Option TypeId) (fuel : ℕ) (ty : TypeId) :
    R r (Registry.substituteWithin replace fuel ty r).2 := by
  induction fuel generalizing ty r with
  | zero => exact h.refl r
  | succ fuel ih =>
    rw [Registry.substituteWithin]
    refine h.bind (h.refl r) fun r' r => ?_
    cases r'.kind ty with
    | placeholder | nominal | poison => exact h.refl r
    | array element => exact h.bind (ih element) fun element r => h.arrayOf element r
    | function params result =>
      exact h.bind (ih result) fun result r =>
        h.bind (h.mapM fun ty r => ih ty) fun params r => h.functionOf params result r

end Allows

/-- Extensions allow for requests. -/
theorem allows_extends : Allows Extends where
  refl _ := .refl
  trans := Extends.trans
  arrayOf _ _ := .findOrInsert _
  functionOf _ _ _ := .findOrInsert _

/-- Asking for a method's type extends a registry. -/
theorem Extends.methodType (m : MethodRef) : r.Extends (Registry.methodType m r).2 :=
  allows_extends.methodType m

/-- Replacing placeholders extends a registry. -/
theorem Extends.substituteWithin (replace : TypeId → Option TypeId) (fuel : ℕ) (ty : TypeId) :
    r.Extends (Registry.substituteWithin replace fuel ty r).2 :=
  allows_extends.substituteWithin replace fuel ty

/-- A type with a parent is registered. -/
theorem lt_size_of_parent {cls parent : TypeId} (hp : r.parent cls = some parent) :
    cls.index < r.size := by
  refine Nat.lt_of_not_le fun hle => ?_
  have hnone : r.defs[cls.index]? = none := Array.getElem?_eq_none hle
  rw [Registry.parent, definition, Array.getD_eq_getD_getElem?, hnone] at hp
  cases hp

/-- The root of all classes has no parent, parameters or properties. -/
theorem HasBuiltins.definition_any (hb : r.HasBuiltins) :
    (r.definition .any).parent = none ∧ (r.definition .any).params = [] ∧
      (r.definition .any).properties = [] := by
  rw [hb.definition rfl]
  exact ⟨rfl, rfl, rfl⟩

/-- The lineage of a class whose parent is `any`. -/
theorem HasBuiltins.lineage_eq (hb : r.HasBuiltins) {cls : TypeId}
    (hp : r.parent cls = some .any) : r.lineage cls = [cls, .any] := by
  have hany : r.parent .any = none := hb.definition_any.1
  obtain ⟨size, hsize⟩ : ∃ size, r.size = size + 1 :=
    ⟨r.size - 1, by have := lt_size_of_parent hp; omega⟩
  simp only [lineage, hsize, ancestorsWithin, hp]
  cases size with
  | zero => rfl
  | succ size => simp only [ancestorsWithin, hany]

/-- A registry that extends one with the built-in types has them as well. -/
theorem HasBuiltins.extend {r' : Registry} (hb : r.HasBuiltins) (hx : r.Extends r') :
    r'.HasBuiltins where
  size := Nat.le_trans hb.size hx.size
  definition {ty} hty := by
    have hlt : ty.index < TypeId.builtinCount := of_decide_eq_true hty
    rw [hx.definition (Nat.lt_of_lt_of_le hlt hb.size), hb.definition hty]

/-- The initial registry has the built-in types. -/
theorem hasBuiltins_initial : initial.HasBuiltins where
  size := Nat.le_of_eq size_initial.symm
  definition {ty} hty := by
    have hlt : ty.index < 7 := of_decide_eq_true hty
    obtain ⟨i⟩ := ty
    match i, hlt with
    | 0, _ | 1, _ | 2, _ | 3, _ | 4, _ | 5, _ | 6, _ => rfl

/-- Giving a declared class its members leaves the built-in types at their places. -/
theorem HasBuiltins.defineClass (hb : r.HasBuiltins) {cls : TypeId}
    (hcls : TypeId.builtinCount ≤ cls.index) (body : ClassBody) :
    (r.defineClass cls body).HasBuiltins where
  size := by
    rw [show (r.defineClass cls body).size = r.size from Array.size_modify]
    exact hb.size
  definition {ty} hty := by
    have hlt : ty.index < TypeId.builtinCount := of_decide_eq_true hty
    rw [← hb.definition hty]
    simp only [Registry.defineClass, modifyDef, Registry.definition, getD_modify]
    rw [if_neg (by omega)]

end Registry

/-- The first class that is declared beside the built-in types. -/
def TypeId.main : TypeId := ⟨TypeId.builtinCount⟩

namespace Registry

/-- The built-in types and one class. -/
def ofClass (body : ClassBody) : Registry :=
  (insert (.plain "Main" .nominal (some .any)) initial).2.defineClass .main body

/-- The built-in types are beside the class. -/
theorem hasBuiltins_ofClass (body : ClassBody) : (ofClass body).HasBuiltins :=
  (hasBuiltins_initial.extend (.insert _)).defineClass (Nat.le_refl _) body

/-- The definition of the class. -/
theorem definition_ofClass (body : ClassBody) :
    (ofClass body).definition .main =
      { TypeDef.plain "Main" .nominal (body.parent.or (some .any)) with
        parentArgs := body.parentArgs
        params := body.params
        properties := body.properties
        methods := body.methods } := by
  have hsize : initial.defs.size = TypeId.builtinCount := size_initial
  simp only [ofClass, defineClass, modifyDef, definition, insert, getD_modify, getD_push,
    Array.size_push, hsize, TypeId.main, size, if_true]
  rfl

/-- A step that looks at the registry first. -/
theorem get_bind_apply {α : Type} (next : Registry → Registering α) :
    (get >>= next) r = next r r := rfl

/-- The type of a method is a function type. -/
theorem methodType_apply (m : MethodRef) (r : Registry) :
    methodType m r = functionOf ((r.method m).params.map (·.ty)) (r.method m).result r := by
  have heq : methodType m =
      get >>= fun r => functionOf ((r.method m).params.map (·.ty)) (r.method m).result := rfl
  rw [heq, get_bind_apply]

/-- A name without a method is not bound. -/
theorem bindMethods_of_none {cls : TypeId} {name : String} {names : List String}
    (hm : r.findMethod cls name = none) :
    bindMethods cls (name :: names) r = bindMethods cls names r := by
  rw [bindMethods, get_bind_apply, hm]

/-- A name is bound to its method, and the type of the method is asked for. -/
theorem bindMethods_of_some {cls : TypeId} {name : String} {names : List String} {m : MethodRef}
    (hm : r.findMethod cls name = some m) :
    bindMethods cls (name :: names) r =
      (⟨name, .unbound m, (methodType m r).1⟩ :: (bindMethods cls names (methodType m r).2).1,
        (bindMethods cls names (methodType m r).2).2) := by
  rw [bindMethods, get_bind_apply, hm]
  rfl

/-- Bound methods are unbound functions. Binding them extends the registry. -/
theorem bindMethods_spec (cls : TypeId) (names : List String) (r : Registry) :
    (∀ b ∈ (bindMethods cls names r).1, ∃ m, b.expr = .unbound m) ∧
      r.Extends (bindMethods cls names r).2 := by
  induction names generalizing r with
  | nil => exact ⟨fun b hb => absurd hb List.not_mem_nil, .refl⟩
  | cons name names ih =>
    cases hm : r.findMethod cls name with
    | none =>
      rw [bindMethods_of_none hm]
      exact ih r
    | some method =>
      obtain ⟨hbs, hx⟩ := ih (methodType method r).2
      rw [bindMethods_of_some hm]
      refine ⟨fun b hb => ?_, (Extends.methodType method).trans hx⟩
      rcases List.mem_cons.mp hb with rfl | hb
      · exact ⟨method, rfl⟩
      · exact hbs b hb

end Registry

/-! ## Slots -/

/-- A slot of a new name is put last. -/
theorem placeSlot_of_not_mem {slots : List Slot} {slot : Slot}
    (h : slot.name ∉ slots.map (·.name)) : placeSlot slots slot = slots ++ [slot] := by
  induction slots with
  | nil => rfl
  | cons first rest ih =>
    rw [List.map_cons, List.mem_cons, not_or] at h
    rw [placeSlot, if_neg (Ne.symm h.1), ih h.2]
    rfl

/-- Slots of distinct names are placed in order. -/
theorem foldl_placeSlot {slots : List Slot} (before : List Slot)
    (h : ((before ++ slots).map (·.name)).Nodup) :
    slots.foldl placeSlot before = before ++ slots := by
  induction slots generalizing before with
  | nil => rw [List.foldl_nil, List.append_nil]
  | cons slot slots ih =>
    have hnew : slot.name ∉ before.map (·.name) := by
      rw [List.map_append, List.map_cons] at h
      exact fun hmem => (List.nodup_append.mp h).2.2 _ hmem _ List.mem_cons_self rfl
    rw [List.foldl_cons, placeSlot_of_not_mem hnew, ih _ (by rwa [List.append_assoc]),
      List.append_assoc]
    rfl

/-! ## Bindings -/

/-- Among distinct keys, the first item with a key is the one at its place, whatever follows. -/
theorem findIdx?_append_of_nodup {α : Type} {key : α → String} {items : List α} (rest : List α)
    {item : α} {j : ℕ} (hnodup : (items.map key).Nodup) (hitem : items[j]? = some item) :
    (items ++ rest).findIdx? (key · == key item) = some j := by
  induction items generalizing j with
  | nil => cases hitem
  | cons first items ih =>
    obtain ⟨hfirst, hitems⟩ := List.nodup_cons.mp hnodup
    rw [List.cons_append, List.findIdx?_cons]
    cases j with
    | zero =>
      obtain rfl : first = item := Option.some.inj hitem
      simp
    | succ j =>
      have hne : (key first == key item) = false := by
        refine beq_false_of_ne fun h => hfirst ?_
        exact h ▸ List.mem_map.mpr ⟨item, List.mem_of_getElem? hitem, rfl⟩
      rw [hne, if_neg Bool.false_ne_true, ih hitems hitem]
      rfl

/-- A parameter is bound to the argument in its place. -/
theorem bindParams_getElem? {params : List Param} {args : List Expr} {j : ℕ} {p : Param}
    {arg : Expr} (hp : params[j]? = some p) (harg : args[j]? = some arg) :
    (bindParams params args)[j]? = some ⟨p.name, arg, p.ty⟩ := by
  induction params generalizing args j with
  | nil => cases hp
  | cons first params ih =>
    cases args with
    | nil => cases harg
    | cons arg' args =>
      cases j with
      | zero =>
        obtain rfl : first = p := Option.some.inj hp
        obtain rfl : arg' = arg := Option.some.inj harg
        rfl
      | succ j => exact ih hp harg

/-- Parameters are bound to arguments, or to absences. -/
theorem expr_bindParams {params : List Param} {args : List Expr} {b : Binding}
    (hb : b ∈ bindParams params args) :
    b.expr ∈ args ∨ ∃ p ∈ params, b.expr = .missing p.ty := by
  induction params generalizing args with
  | nil => cases hb
  | cons first params ih =>
    have hrest : ∀ {args : List Expr}, b ∈ bindParams params args →
        b.expr ∈ args ∨ ∃ p ∈ first :: params, b.expr = .missing p.ty := fun hb =>
      (ih hb).imp_right fun h => h.imp fun _ hp => hp.imp_left (List.mem_cons_of_mem _)
    cases args with
    | nil =>
      rcases List.mem_cons.mp hb with rfl | hb
      · exact .inr ⟨first, List.mem_cons_self, rfl⟩
      · exact hrest hb
    | cons arg args =>
      rcases List.mem_cons.mp hb with rfl | hb
      · exact .inl List.mem_cons_self
      · exact (hrest hb).imp_left (List.mem_cons_of_mem _)

/-- Parameters keep their names and their number when they are bound. -/
theorem map_name_bindParams (params : List Param) (args : List Expr) :
    (bindParams params args).map (·.name) = params.map (·.name) := by
  induction params generalizing args with
  | nil => rfl
  | cons first params ih =>
    cases args with
    | nil => exact congrArg _ (ih [])
    | cons arg args => exact congrArg _ (ih args)

/-! ## Objects -/

variable {σ : Type} {natives : Natives σ}

namespace Effect

/-- The constructor scope of a type binds its parameters, and then methods that are not bound to a
receiver yet. -/
theorem constructorScope_apply (cls ty : TypeId) (receiver : InstanceId) (args : List Expr)
    (w : World σ) :
    ∃ types methods, w.types.Extends types ∧
      (∀ b ∈ methods, ∃ m, b.expr = Expr.unbound m) ∧
      constructorScope cls ty receiver args w = .ok ⟨w.heap.scopes.size⟩
        { w with
          types
          heap := (w.heap.allocScope
            { receiver := some receiver
              bindings := bindParams (w.types.definition ty).params args ++ methods }).2 } := by
  have hspec := Registry.bindMethods_spec cls ((w.types.methodNames ty).filter fun name =>
    !(bindParams (w.types.definition ty).params args).any (·.name == name)) w.types
  exact ⟨_, _, hspec.2, hspec.1, rfl⟩

/-- The constructor scopes of a class whose parent is `any`. -/
theorem constructorScopes_apply (cls : TypeId) (receiver : InstanceId) (args : List Expr)
    {w : World σ} (hb : w.types.HasBuiltins) :
    ∃ types methods inherited, w.types.Extends types ∧
      (∀ b ∈ methods ++ inherited, ∃ m, b.expr = Expr.unbound m) ∧
      constructorScopes cls receiver [cls, .any] args w =
        .ok [(.any, ⟨w.heap.scopes.size + 1⟩), (cls, ⟨w.heap.scopes.size⟩)]
          { w with
            types
            heap := { w.heap with
              scopes := (w.heap.scopes.push
                { receiver := some receiver
                  bindings := bindParams (w.types.definition cls).params args ++ methods }).push
                { receiver := some receiver, bindings := inherited } } } := by
  obtain ⟨types₁, methods, hx₁, hmethods, hown⟩ := constructorScope_apply cls cls receiver args w
  obtain ⟨types₂, inherited, hx₂, hinherited, hroot⟩ := constructorScope_apply cls .any receiver
    ((types₁.definition cls).parentArgs.map (.scoped ⟨w.heap.scopes.size⟩))
    { w with
      types := types₁
      heap := (w.heap.allocScope
        { receiver := some receiver
          bindings := bindParams (w.types.definition cls).params args ++ methods }).2 }
  refine ⟨types₂, methods, inherited, hx₁.trans hx₂, fun b hbm => ?_, ?_⟩
  · rcases List.mem_append.mp hbm with hbm | hbm
    · exact hmethods b hbm
    · exact hinherited b hbm
  -- The root of all classes takes nothing, so the second scope binds methods alone.
  · have hnone : bindParams (types₁.definition .any).params
        ((types₁.definition cls).parentArgs.map (.scoped ⟨w.heap.scopes.size⟩)) = [] := by
      rw [(hb.extend hx₁).definition_any.2.1]
      rfl
    unfold constructorScopes
    rw [bind_of_ok hown, bind_of_ok (read_apply _ _)]
    unfold constructorScopes
    rw [bind_apply, bind_of_ok hroot, bind_of_ok (read_apply _ _), hnone]
    simp only [Heap.allocScope, Array.size_push, List.nil_append]
    rfl

end Effect

/-- The heap with one object on it, of a class whose parent is `any`. The first of its constructor
scopes is the class's own. -/
def Heap.ofObject (cls : TypeId) (bindings inherited : List Binding) (slots : List Slot) : Heap where
  scopes := #[{ receiver := some ⟨0⟩, bindings }, { receiver := some ⟨0⟩, bindings := inherited }]
  instances := #[{ ty := cls, payload := .none, scopes := [(.any, ⟨1⟩), (cls, ⟨0⟩)],
                   sealed := false, slots }]
  promises := #[]

namespace Heap

variable {cls : TypeId} {bindings inherited : List Binding} {slots : List Slot}

/-- A name leads from the object's own constructor scope to that scope's binding. -/
theorem lookup?_ofObject (name : String) :
    (ofObject cls bindings inherited slots).lookup? ⟨0⟩ name =
      (bindings.findIdx? (·.name == name)).map (⟨⟨0⟩, ·⟩) := by
  have hchain : (ofObject cls bindings inherited slots).chain ⟨0⟩ = [⟨0⟩] := rfl
  rw [lookup?, hchain, List.findSome?_cons, List.findSome?_nil]
  have hscope : ((ofObject cls bindings inherited slots).scope ⟨0⟩).bindings = bindings := rfl
  rw [hscope]
  cases bindings.findIdx? (·.name == name) <;> rfl

/-- The object is the receiver in its own constructor scope. -/
theorem receiver?_ofObject :
    (ofObject cls bindings inherited slots).receiver? ⟨0⟩ = some ⟨0⟩ :=
  rfl

/-- The object is the receiver in every scope that has one. -/
theorem receiver_ofObject {s : ScopeId} {id : InstanceId}
    (hr : ((ofObject cls bindings inherited slots).scope s).receiver = some id) : id = ⟨0⟩ := by
  obtain ⟨n⟩ := s
  match n with
  | 0 => exact (Option.some.inj hr).symm
  | 1 => exact (Option.some.inj hr).symm
  | n + 2 => cases hr

/-- What the cells of a new object hold. -/
theorem read?_ofObject {c : Cell} {e : Expr}
    (hc : (ofObject cls bindings inherited slots).read? c = some e) :
    (∃ j b, c = .binding ⟨0⟩ j ∧ bindings[j]? = some b ∧ b.expr = e) ∨
      (∃ b ∈ inherited, b.expr = e) ∨
      ∃ i slot, c = .slot ⟨0⟩ i ∧ slots[i]? = some slot ∧ slot.expr = e := by
  cases c with
  | binding s j =>
    obtain ⟨b, hb, rfl⟩ := Option.map_eq_some_iff.mp hc
    obtain ⟨n⟩ := s
    match n with
    | 0 => exact .inl ⟨j, b, rfl, hb, rfl⟩
    | 1 => exact .inr (.inl ⟨b, List.mem_of_getElem? hb, rfl⟩)
    | n + 2 => cases hb
  | slot o i =>
    obtain ⟨slot, hslot, rfl⟩ := Option.map_eq_some_iff.mp hc
    obtain ⟨n⟩ := o
    match n with
    | 0 => exact .inr (.inr ⟨i, slot, rfl, hslot, rfl⟩)
    | n + 1 => cases hslot
  | element o i =>
    obtain ⟨n⟩ := o
    match n with
    | 0 => cases hc
    | n + 1 => cases hc

end Heap

/-- **A new object** of a class whose parent is `any`. Its own constructor scope binds its
parameters to the arguments, and its properties are its initializers in that scope. -/
theorem Effect.construct_ofTypes (natives : Natives σ) {types : Registry} {cls : TypeId}
    (hb : types.HasBuiltins) (hp : types.parent cls = some .any)
    (hnames : ((types.definition cls).properties.map (·.name)).Nodup) (args : List Expr)
    (host : σ) :
    ∃ w methods inherited, types.Extends w.types ∧
      (∀ b ∈ methods ++ inherited, ∃ m, b.expr = Expr.unbound m) ∧
      w.heap = .ofObject cls (bindParams (types.definition cls).params args ++ methods) inherited
        ((types.definition cls).properties.map
          (initialSlot (natives.hasPlugin w.types cls) ⟨0⟩ cls ⟨0⟩)) ∧
      construct natives cls args (World.ofTypes types host) = .ok ⟨0⟩ w := by
  have hany : TypeId.any.index < types.size := Nat.lt_of_lt_of_le (by decide) hb.size
  have hcls : cls.index < types.size := Registry.lt_size_of_parent hp
  obtain ⟨types', methods, inherited, hx, hunbound, hscopes⟩ :=
    constructorScopes_apply cls ⟨0⟩ args
      (w := { types, host, heap := (Heap.empty.allocInstance
        { ty := cls, payload := .none, scopes := [], sealed := false, slots := [] }).2 }) hb
  -- `any` has no properties, and those of the class have distinct names, so none takes the place of
  -- another.
  have hslots : initialSlots types' (natives.hasPlugin types' cls) ⟨0⟩ [(.any, ⟨1⟩), (cls, ⟨0⟩)] =
      (types.definition cls).properties.map
        (initialSlot (natives.hasPlugin types' cls) ⟨0⟩ cls ⟨0⟩) := by
    simp only [initialSlots, List.flatMap_cons, List.flatMap_nil, hx.definition hany,
      hx.definition hcls, hb.definition_any.2.2, List.map_nil, List.nil_append, List.append_nil]
    rw [foldl_placeSlot, List.nil_append]
    rwa [List.nil_append, List.map_map]
  refine ⟨{
    types := types'
    heap := .ofObject cls (bindParams (types.definition cls).params args ++ methods) inherited
      ((types.definition cls).properties.map
        (initialSlot (natives.hasPlugin types' cls) ⟨0⟩ cls ⟨0⟩))
    host }, methods, inherited, hx, hunbound, rfl, ?_⟩
  refine (bind_of_ok (onHeap_apply _ _)).trans ((bind_of_ok (read_apply _ _)).trans ?_)
  have hlineage : types.lineage cls = [cls, .any] := hb.lineage_eq hp
  simp only [World.ofTypes, hlineage]
  refine (bind_of_ok hscopes).trans ((bind_of_ok (read_apply _ _)).trans ?_)
  refine (bind_of_ok (modifyHeap_apply _ _)).trans ?_
  simp only [Heap.allocInstance, Heap.empty, List.size_toArray, List.length_nil]
  rw [hslots]
  rfl

/-- A class whose parent is `any`, without a plugin and with all of its properties shown. -/
structure PlainClass (natives : Natives σ) (types : Registry) (cls : TypeId) : Prop where
  /-- The built-in types are at their places. -/
  builtins : types.HasBuiltins
  /-- The parent is `any`. -/
  parent : types.parent cls = some .any
  /-- The class has no plugin. -/
  plain : natives.plugins.lookup cls = none
  /-- Nor has `any`. -/
  anyPlain : natives.plugins.lookup .any = none
  /-- All properties are shown. -/
  visible : ∀ p ∈ (types.definition cls).properties, p.visibility = .visible

namespace PlainClass

variable {types types' : Registry} {cls : TypeId} (hc : PlainClass natives types cls)

include hc

/-- The lineage of the class is the same in every extension. -/
theorem lineage_eq (hx : types.Extends types') : types'.lineage cls = [cls, .any] := by
  have hparent : types'.parent cls = some .any := by
    rw [Registry.parent, hx.definition (Registry.lt_size_of_parent hc.parent)]
    exact hc.parent
  exact (hc.builtins.extend hx).lineage_eq hparent

/-- No plugin speaks for the class. -/
theorem nearest?_eq_none (hx : types.Extends types') : natives.nearest? types' cls = none := by
  rw [Natives.nearest?, hc.lineage_eq hx]
  simp only [List.findSome?_cons, hc.plain, hc.anyPlain, List.findSome?_nil]

end PlainClass

end ObjectGraph
