import ObjectGraph.Proofs.Heap.Scopes
import ObjectGraph.Proofs.Run.Slots

/-!
# Constructor scopes

Construction makes a scope for each type of a lineage, nearest first, and lists them root first
(`Effect.construct_wires`). Each scope binds the parameters of its type: the class's to the given
arguments, and a parent's to the arguments that the child hands up, closed over the child's scope.
Then it binds each method name that the type knows, once, and whichever type the scope belongs to,
the method is the one that the class answers the name with (`Scope.Wires`).

Methods are looked up while the registry grows, since their types are asked for. What is asked for
is no class, so lineages and methods stay what they are (`Registry.Extends.lineage`).
-/

namespace ObjectGraph

variable {σ : Type}

/-- Changing the element that has been added last is adding the changed element. -/
theorem modify_push_size {α : Type} (xs : Array α) (x : α) (f : α → α) :
    (xs.push x).modify xs.size f = xs.push (f x) := by
  refine Array.ext_getElem? fun i => ?_
  rw [Array.getElem?_modify, Array.getElem?_push, Array.getElem?_push]
  by_cases hi : i = xs.size
  · subst hi
    simp
  · simp [hi, Ne.symm hi]

/-! ## Lineages of extensions -/

namespace Registry

variable {base r : Registry} {cls ty t : TypeId} {types : List TypeId} {name : String}

/-- A hierarchy of classes: no type is among its own ancestors, and parents are registered. -/
structure Hierarchy (r : Registry) : Prop where
  /-- No type is among its own ancestors. -/
  loopFree : r.LoopFree
  /-- Parents are registered. -/
  parents : ∀ {ty parent : TypeId}, r.parent ty = some parent → parent.index < r.size

namespace Hierarchy

variable (h : base.Hierarchy) (hx : base.Extends r)
include h

/-- The lineage of a type is its line. -/
theorem line (ty : TypeId) : base.Line ty (base.lineage ty) := line_lineage fun a _ => h.loopFree a

/-- The types of a lineage are registered. -/
theorem registered (hty : ty.index < base.size) (ht : t ∈ base.lineage ty) :
    t.index < base.size :=
  lt_size_of_mem_lineage h.parents hty ht

include hx

/-- The line of a type is the same in an extension. -/
theorem line_extend (hline : base.Line ty types) (hty : ty.index < base.size) :
    r.Line ty types := by
  induction hline with
  | root hp => exact .root ((congrArg TypeDef.parent (hx.definition hty)).trans hp)
  | child hp next ih =>
    exact .child ((congrArg TypeDef.parent (hx.definition hty)).trans hp) (ih (h.parents hp))

/-- So is its lineage. -/
theorem lineage (hty : ty.index < base.size) : r.lineage ty = base.lineage ty := by
  have hline := h.line_extend hx (h.line ty) hty
  exact (line_lineage (line_iff.mp ⟨_, hline⟩)).unique hline

/-- So are the methods that it answers names with. -/
theorem findMethod (hty : ty.index < base.size) (name : String) :
    r.findMethod ty name = base.findMethod ty name := by
  have hfirst (r : Registry) : r.findMethod ty name = ((r.lineage ty).map fun t =>
      ((r.definition t).methodIndex? name).map (⟨t, ·⟩)).findSome? id := by
    rw [List.findSome?_map]
    rfl
  rw [hfirst, hfirst, h.lineage hx hty]
  refine congrArg (List.findSome? id) (List.map_congr_left fun t ht => ?_)
  rw [hx.definition (h.registered hty ht)]

/-- So are the names of methods that it knows. -/
theorem methodNames (hty : ty.index < base.size) : r.methodNames ty = base.methodNames ty := by
  rw [Registry.methodNames, Registry.methodNames, h.lineage hx hty]
  refine congrArg List.eraseDups (List.flatMap_congr fun t ht => ?_)
  rw [hx.definition (h.registered hty ht)]

/-- Names that a class has methods for are bound to these. -/
theorem forall₂_bindMethods (hcls : cls.index < base.size) {names : List String}
    (hnames : ∀ name ∈ names, ∃ m, base.findMethod cls name = some m) :
    List.Forall₂ (fun name b => b.name = name ∧
        ∃ m, base.findMethod cls name = some m ∧ b.expr = .unbound m)
      names (bindMethods cls names r).1 := by
  induction names generalizing r with
  | nil => exact .nil
  | cons name names ih =>
    obtain ⟨⟨m, hm⟩, hrest⟩ := List.forall_mem_cons.mp hnames
    rw [bindMethods_of_some ((h.findMethod hx hcls name).trans hm)]
    exact .cons ⟨rfl, m, hm, rfl⟩ (ih (hx.trans (.methodType m)) hrest)

end Hierarchy

/-- A class has a method for each name of a method that it declares or inherits. -/
theorem exists_findMethod {m : Method} (ht : t ∈ r.lineage cls)
    (hm : m ∈ (r.definition t).methods) : ∃ found, r.findMethod cls m.name = some found := by
  have hindex : ((r.definition t).methodIndex? m.name).isSome := by
    rw [TypeDef.methodIndex?, List.findIdx?_isSome, List.any_eq_true]
    exact ⟨m, hm, beq_self_eq_true _⟩
  rw [← Option.isSome_iff_exists, Registry.findMethod, List.findSome?_isSome_iff]
  exact ⟨t, ht, by rwa [Option.isSome_map]⟩

/-- The names of the methods that a type knows are those that it or an ancestor declares. -/
theorem mem_methodNames : name ∈ r.methodNames ty ↔
    ∃ t ∈ r.lineage ty, ∃ m ∈ (r.definition t).methods, m.name = name := by
  simp only [methodNames, List.mem_eraseDups, List.mem_flatMap, List.mem_map]

/-- Each of them is listed once. -/
theorem nodup_methodNames (r : Registry) (ty : TypeId) : (r.methodNames ty).Nodup := by
  rw [methodNames]
  generalize ((r.lineage ty).flatMap fun t => (r.definition t).methods.map (·.name)) = names
  induction names using List.reverseRecOn with
  | nil => exact List.nodup_nil
  | append_singleton names name ih =>
    rw [List.eraseDups_append]
    by_cases hin : name ∈ names
    · have hnone : [name].removeAll names = [] := by simpa [List.removeAll] using hin
      rwa [hnone, List.eraseDups_nil, List.append_nil]
    · have hone : [name].removeAll names = [name] := by simpa [List.removeAll] using hin
      rw [hone]
      exact ih.append (List.nodup_singleton _)
        (List.disjoint_singleton.mpr fun h => hin (List.mem_eraseDups.mp h))

end Registry

/-! ## What a constructor scope binds -/

/-- A parameter is bound to the argument in its place, and to a missing value if there is none. -/
theorem getElem?_bindParams {params : List Param} {i : ℕ} {p : Param} (hp : params[i]? = some p)
    (args : List Expr) :
    (bindParams params args)[i]? = some ⟨p.name, args[i]?.getD (.missing p.ty), p.ty⟩ := by
  induction params generalizing args i with
  | nil => cases hp
  | cons first params ih =>
    cases i with
    | zero =>
      obtain rfl : first = p := Option.some.inj hp
      cases args <;> rfl
    | succ i =>
      cases args with
      | nil => exact ih hp []
      | cons arg args => exact ih hp args

/-- What is at a place of a list has a counterpart in a list that is related to it. -/
theorem getElem?_of_forall₂ {α β : Type} {R : α → β → Prop} {as : List α} {bs : List β} {a : α}
    {i : ℕ} (h : List.Forall₂ R as bs) (hi : as[i]? = some a) : ∃ b, bs[i]? = some b ∧ R a b := by
  induction h generalizing i with
  | nil => cases hi
  | cons hab _ ih =>
    cases i with
    | zero =>
      obtain rfl := Option.some.inj hi
      exact ⟨_, rfl, hab⟩
    | succ i => exact ih hi

/-- The scope binds the name at one index, to the expression, and nowhere else. -/
structure Scope.BindsOnce (sc : Scope) (name : String) (i : ℕ) (e : Expr) : Prop where
  /-- The name is bound to the expression there. -/
  bound : ∃ b, sc.bindings[i]? = some b ∧ b.name = name ∧ b.expr = e
  /-- It is not bound anywhere else. -/
  once : ∀ {j : ℕ} {b : Binding}, sc.bindings[j]? = some b → b.name = name → j = i

/-- How the constructor scope of a type is wired for a new instance of a class. -/
structure Scope.Wires (types : Registry) (cls ty : TypeId) (id : InstanceId) (args : List Expr)
    (sc : Scope) : Prop where
  /-- It has no parent. -/
  parent : sc.parent = none
  /-- The new instance is the receiver. -/
  receiver : sc.receiver = some id
  /-- It is no call's, and has no generic arguments. -/
  typeArgs : sc.typeArgs = []
  /-- Each parameter is bound to the argument in its place, or to a missing value of its type. -/
  params : ∀ {i : ℕ} {p : Param}, (types.definition ty).params[i]? = some p →
    sc.bindings[i]? = some ⟨p.name, args[i]?.getD (.missing p.ty), p.ty⟩
  /-- Each method name that the type knows is bound once, unless it is a parameter's name, and to
  the method that the class answers it with. -/
  methods : ∀ {t : TypeId} {m : Method}, t ∈ types.lineage ty →
    m ∈ (types.definition t).methods → m.name ∉ (types.definition ty).params.map (·.name) →
      ∃ i found, types.findMethod cls m.name = some found ∧
        sc.BindsOnce m.name i (.unbound found)

/-- Among bindings of distinct names, each name that is not bound before is bound once. -/
theorem Scope.bindsOnce_of_append {sc : Scope} {before after : List Binding} {b : Binding} {j : ℕ}
    (hsc : sc.bindings = before ++ after) (hbefore : b.name ∉ before.map (·.name))
    (hnodup : (after.map (·.name)).Nodup) (hj : after[j]? = some b) :
    sc.BindsOnce b.name (before.length + j) b.expr where
  bound := by
    refine ⟨b, ?_, rfl, rfl⟩
    rw [hsc, List.getElem?_append_right (Nat.le_add_right _ _), Nat.add_sub_cancel_left, hj]
  once {k b'} hk hname := by
    rw [hsc] at hk
    rcases Nat.lt_or_ge k before.length with hlt | hge
    · rw [List.getElem?_append_left hlt] at hk
      exact absurd (List.mem_map.mpr ⟨b', List.mem_of_getElem? hk, hname⟩) hbefore
    · rw [List.getElem?_append_right hge] at hk
      -- The names at both places are the same, so the places are.
      have hsame : (after.map (·.name))[j]? = (after.map (·.name))[k - before.length]? := by
        rw [List.getElem?_map, List.getElem?_map, hj, hk, Option.map_some, Option.map_some, hname]
      obtain ⟨hlt, -⟩ := List.getElem?_eq_some_iff.mp hj
      have heq := (List.getElem?_inj (by rwa [List.length_map]) hnodup).mp hsame
      omega

/-- The bindings of the constructor scope of a type: its parameters, and then methods. -/
def Registry.constructorBindings (cls ty : TypeId) (args : List Expr) :
    Registering (List Binding) := fun r =>
  let params := bindParams (r.definition ty).params args
  let methods := bindMethods cls
    ((r.methodNames ty).filter fun name => !params.any (·.name == name)) r
  (params ++ methods.1, methods.2)

/-- Asking for the types of methods extends a registry. -/
theorem Registry.extends_constructorBindings (cls ty : TypeId) (args : List Expr) (r : Registry) :
    r.Extends (constructorBindings cls ty args r).2 :=
  (bindMethods_spec cls _ r).2

/-- **The constructor scope of a type of the lineage is wired for the class**, in whatever extension
of the registry the methods are looked up. -/
theorem Registry.Hierarchy.wires {base r : Registry} (h : base.Hierarchy) (hx : base.Extends r)
    {cls ty : TypeId} (hcls : cls.index < base.size) (hty : ty ∈ base.lineage cls)
    (id : InstanceId) (args : List Expr) :
    Scope.Wires base cls ty id args
      { receiver := some id, bindings := (Registry.constructorBindings cls ty args r).1 } := by
  have htyreg := h.registered hcls hty
  have hdef := hx.definition htyreg
  let params := bindParams (base.definition ty).params args
  let names := (base.methodNames ty).filter fun name => !params.any (·.name == name)
  have hbindings : (Registry.constructorBindings cls ty args r).1 =
      params ++ (bindMethods cls names r).1 := by
    simp only [Registry.constructorBindings, hdef, h.methodNames hx htyreg]
    rfl
  have hparams : params.map (·.name) = (base.definition ty).params.map (·.name) :=
    map_name_bindParams _ _
  have hmem {name : String} : name ∈ names ↔ name ∈ base.methodNames ty ∧
      name ∉ (base.definition ty).params.map (·.name) := by
    rw [List.mem_filter, ← hparams, Bool.not_eq_true', Bool.eq_false_iff, ne_eq, List.any_eq_true,
      List.mem_map]
    simp only [beq_iff_eq]
  -- The class has a method for each name, since the type's lineage is part of its own.
  have hbound : List.Forall₂ _ names (bindMethods cls names r).1 :=
    h.forall₂_bindMethods hx hcls fun name hname => by
      obtain ⟨t, ht, m, hm, rfl⟩ := Registry.mem_methodNames.mp (hmem.mp hname).1
      exact Registry.exists_findMethod ((h.line cls).mem_lineage hty ht) hm
  have hnames : (bindMethods cls names r).1.map (·.name) = names := by
    refine (List.forall₂_eq_eq_eq ▸ ?_ : names = _).symm
    exact List.forall₂_map_right_iff.mpr (hbound.imp fun _ _ hb => hb.1.symm)
  refine ⟨rfl, rfl, rfl, fun {i p} hp => ?_, fun {t m} ht hm hnot => ?_⟩
  · have hi := getElem?_bindParams hp args
    have hlt := (List.getElem?_eq_some_iff.mp hi).1
    dsimp only
    rw [hbindings, List.getElem?_append_left hlt, hi]
  · have hname : m.name ∈ names := hmem.mpr ⟨Registry.mem_methodNames.mpr ⟨t, ht, m, hm, rfl⟩, hnot⟩
    obtain ⟨j, hj⟩ := List.mem_iff_getElem?.mp hname
    obtain ⟨b, hb, hbname, found, hfound, hexpr⟩ := getElem?_of_forall₂ hbound hj
    refine ⟨params.length + j, found, hfound, ?_⟩
    rw [← hbname, ← hexpr]
    refine Scope.bindsOnce_of_append hbindings ?_ ?_ hb
    · rw [hparams, hbname]
      exact hnot
    · rw [hnames]
      exact (Registry.nodup_methodNames base ty).filter _

/-- The scopes of types, given nearest first, are wired for a new instance of a class. The first
type gets the arguments, and each other type those that the type before it hands to its parent,
closed over the scope of the type before it. -/
def Heap.Wires (h : Heap) (types : Registry) (cls : TypeId) (id : InstanceId) :
    List Expr → List (TypeId × ScopeId) → Prop
  | _, [] => True
  | args, (ty, s) :: rest =>
    (h.scope s).Wires types cls ty id args ∧
      h.Wires types cls id ((types.definition ty).parentArgs.map (.scoped s)) rest

/-- Each of the scopes is wired, to some arguments. -/
theorem Heap.Wires.exists_args {h : Heap} {types : Registry} {cls ty : TypeId} {id : InstanceId}
    {args : List Expr} {scopes : List (TypeId × ScopeId)} {s : ScopeId}
    (hw : h.Wires types cls id args scopes) (hs : (ty, s) ∈ scopes) :
    ∃ args, (h.scope s).Wires types cls ty id args := by
  induction scopes generalizing args with
  | nil => cases hs
  | cons entry rest ih =>
    rcases List.mem_cons.mp hs with rfl | hs
    · exact ⟨args, hw.1⟩
    · exact ih hw.2 hs

/-- Wiring depends only on the scopes themselves. -/
theorem Heap.Wires.congr {h h' : Heap} {types : Registry} {cls : TypeId} {id : InstanceId}
    {args : List Expr} {scopes : List (TypeId × ScopeId)} (hw : h.Wires types cls id args scopes)
    (hsame : ∀ entry ∈ scopes, h'.scope entry.2 = h.scope entry.2) :
    h'.Wires types cls id args scopes := by
  induction scopes generalizing args with
  | nil => trivial
  | cons entry rest ih =>
    obtain ⟨hfirst, hrest⟩ := List.forall_mem_cons.mp hsame
    exact ⟨hfirst ▸ hw.1, ih hw.2 hrest⟩

namespace Effect

/-- A constructor scope has the new instance for its receiver, and no parent. -/
theorem constructorScope_eq (cls ty : TypeId) (receiver : InstanceId) (args : List Expr) :
    (constructorScope cls ty receiver args : Effect σ ScopeId) = (do
      let bindings ← onTypes (Registry.constructorBindings cls ty args)
      onHeap (Heap.allocScope { receiver := some receiver, bindings })) :=
  rfl

/-- Constructor scopes do not depend on instances. -/
theorem constructorScopes_instances (cls : TypeId) (receiver : InstanceId) (lineage : List TypeId)
    (args : List Expr) (w : World σ) :
    ∃ listed types scopes, ∀ instances : Array Instance,
      constructorScopes cls receiver lineage args
          { w with heap := { w.heap with instances } } =
        .ok listed { w with types, heap := { w.heap with scopes, instances } } := by
  induction lineage generalizing args w with
  | nil => exact ⟨[], w.types, w.heap.scopes, fun _ => rfl⟩
  | cons ty rest ih =>
    obtain ⟨listed, types, scopes, hrest⟩ := ih
      (((Registry.constructorBindings cls ty args w.types).2.definition ty).parentArgs.map
        (.scoped ⟨w.heap.scopes.size⟩))
      { w with
        types := (Registry.constructorBindings cls ty args w.types).2
        heap := (w.heap.allocScope
          { receiver := some receiver
            bindings := (Registry.constructorBindings cls ty args w.types).1 }).2 }
    refine ⟨listed ++ [(ty, ⟨w.heap.scopes.size⟩)], types, scopes, fun instances => ?_⟩
    rw [constructorScopes, constructorScope_eq]
    refine (bind_of_ok rfl).trans ((bind_of_ok (read_apply _ _)).trans ?_)
    exact (bind_of_ok (hrest instances)).trans rfl

/-- It makes no difference if a new instance is put on the heap when its constructor scopes are
there. -/
theorem construct_eq (natives : Natives σ) (cls : TypeId) (args : List Expr) :
    construct natives cls args = (do
      let id ← read fun w => (⟨w.heap.instances.size⟩ : InstanceId)
      let lineage ← read (·.types.lineage cls)
      let scopes ← constructorScopes cls id lineage args
      let slots ← read fun w => initialSlots w.types (natives.hasPlugin w.types cls) id scopes
      onHeap (Heap.allocInstance
        { ty := cls, payload := .none, scopes, sealed := false, slots })) := by
  funext w
  obtain ⟨listed, types, scopes, hlisted⟩ := constructorScopes_instances cls
    ⟨w.heap.instances.size⟩ (w.types.lineage cls) args w
  -- The scopes are allocated with the instance there on the left, and without it on the right.
  refine (bind_of_ok (onHeap_apply _ _)).trans ((bind_of_ok (read_apply _ _)).trans ?_)
  refine (bind_of_ok (hlisted _)).trans ((bind_of_ok (read_apply _ _)).trans ?_)
  refine Eq.symm ((bind_of_ok (read_apply _ _)).trans ((bind_of_ok (read_apply _ _)).trans ?_))
  refine (bind_of_ok (hlisted w.heap.instances)).trans ((bind_of_ok (read_apply _ _)).trans ?_)
  refine Eq.symm ((bind_of_ok (modifyHeap_apply _ _)).trans ?_)
  simp only [Heap.modifyInstance, Heap.allocInstance]
  rw [modify_push_size]
  rfl

/-- What allocating the constructor scopes of types, given nearest first, does to a world. -/
structure AddsScopes (base : Registry) (cls : TypeId) (id : InstanceId) (types : List TypeId)
    (args : List Expr) (w : World σ) (scopes : List (TypeId × ScopeId)) (w' : World σ) : Prop where
  /-- The registry is extended. -/
  extends_base : base.Extends w'.types
  /-- The instances are the same. -/
  instances : w'.heap.instances = w.heap.instances
  /-- There is a scope for each type. -/
  listed : scopes.map (·.1) = types
  /-- The scopes are new, one after the other. -/
  fresh : scopes.map (·.2.index) = List.range' w.heap.scopes.size types.length
  /-- There are no other new scopes. -/
  size : w'.heap.scopes.size = w.heap.scopes.size + types.length
  /-- The old scopes are the same. -/
  old : ∀ s : ScopeId, s.index < w.heap.scopes.size → w'.heap.scope s = w.heap.scope s
  /-- The scopes are wired. -/
  wires : w'.heap.Wires base cls id args scopes

/-- Constructor scopes are allocated nearest first, wired, and answered root first. -/
theorem constructorScopes_wires {base : Registry} (h : base.Hierarchy) {cls : TypeId}
    (hcls : cls.index < base.size) (id : InstanceId) {types : List TypeId}
    (htypes : ∀ t ∈ types, t ∈ base.lineage cls) (args : List Expr) {w : World σ}
    (hx : base.Extends w.types) :
    ∃ scopes w', constructorScopes cls id types args w = .ok scopes.reverse w' ∧
      AddsScopes base cls id types args w scopes w' := by
  induction types generalizing args w with
  | nil => exact ⟨[], w, rfl, hx, rfl, rfl, rfl, rfl, fun _ _ => rfl, trivial⟩
  | cons ty rest ih =>
    obtain ⟨hty, hrest⟩ := List.forall_mem_cons.mp htypes
    let sc : Scope := { receiver := some id
                        bindings := (Registry.constructorBindings cls ty args w.types).1 }
    let w₁ : World σ := { w with
      types := (Registry.constructorBindings cls ty args w.types).2
      heap := (w.heap.allocScope sc).2 }
    have hx₁ : base.Extends w₁.types := hx.trans (Registry.extends_constructorBindings ..)
    have hdef : w₁.types.definition ty = base.definition ty :=
      hx₁.definition (h.registered hcls hty)
    have hsize₁ : w₁.heap.scopes.size = w.heap.scopes.size + 1 := Array.size_push ..
    obtain ⟨scopes, w', hok, hadds⟩ := ih hrest
      ((base.definition ty).parentArgs.map (.scoped ⟨w.heap.scopes.size⟩)) hx₁
    -- The scopes of the other types come after this one and leave it as it is.
    have hfirst : w'.heap.scope ⟨w.heap.scopes.size⟩ = sc :=
      (hadds.old _ (hsize₁ ▸ Nat.lt_succ_self _)).trans (Heap.scope_allocScope_self _ sc)
    refine ⟨(ty, ⟨w.heap.scopes.size⟩) :: scopes, w', ?_, ?_⟩
    · rw [constructorScopes, constructorScope_eq, List.reverse_cons]
      refine (bind_of_ok rfl).trans ((bind_of_ok (read_apply _ w₁)).trans ?_)
      rw [hdef]
      exact (bind_of_ok hok).trans rfl
    · refine ⟨hadds.extends_base, hadds.instances, congrArg (ty :: ·) hadds.listed, ?_, ?_,
        fun s hs => ?_, ?_, hadds.wires⟩
      · rw [List.map_cons, hadds.fresh, hsize₁, List.length_cons, List.range'_succ]
      · rw [hadds.size, hsize₁, List.length_cons, Nat.add_right_comm, Nat.add_assoc]
      · rw [hadds.old s (hsize₁ ▸ Nat.lt_succ_of_lt hs)]
        exact Heap.scope_allocScope_of_ne _ sc (Nat.ne_of_lt hs)
      · rw [hfirst]
        exact h.wires hx hcls hty id args

end Effect

/-- How construction of an instance of a class from arguments changes a world. -/
structure World.Constructs (cls : TypeId) (args : List Expr) (w : World σ) (id : InstanceId)
    (w' : World σ) : Prop where
  /-- The registry is extended. -/
  extends_types : w.types.Extends w'.types
  /-- The instance is new. -/
  fresh : id.index = w.heap.instances.size
  /-- No other instance is. -/
  size : w'.heap.instances.size = w.heap.instances.size + 1
  /-- It is of the class. -/
  ty : (w'.heap.get id).ty = cls
  /-- It has a scope for each type of the lineage, root first. -/
  ancestors : (w'.heap.get id).scopes.map (·.1) = w.types.ancestors cls
  /-- The scopes are new. -/
  scopes_fresh : ∀ entry ∈ (w'.heap.get id).scopes, w.heap.scopes.size ≤ entry.2.index
  /-- No two of them are the same. -/
  scopes_distinct : ((w'.heap.get id).scopes.map (·.2)).Nodup
  /-- No other scope is new. -/
  scopes_size : w'.heap.scopes.size = w.heap.scopes.size + (w.types.ancestors cls).length
  /-- The old scopes are the same. -/
  scopes_old : ∀ s : ScopeId, s.index < w.heap.scopes.size → w'.heap.scope s = w.heap.scope s
  /-- The scopes are wired, the class's to the arguments. -/
  wires : w'.heap.Wires w.types cls id args (w'.heap.get id).scopes.reverse

/-- **Construction makes a scope for each type of the lineage and wires it.** -/
theorem Effect.construct_wires (natives : Natives σ) {w : World σ} (h : w.types.Hierarchy)
    {cls : TypeId} (hcls : cls.index < w.types.size) (args : List Expr) :
    ∃ id w', construct natives cls args w = .ok id w' ∧ World.Constructs cls args w id w' := by
  obtain ⟨scopes, w₁, hok, hadds⟩ := constructorScopes_wires h hcls ⟨w.heap.instances.size⟩
    (fun t ht => ht) args (w := w) .refl
  let i : Instance := {
    ty := cls, payload := .none, scopes := scopes.reverse, sealed := false
    slots := initialSlots w₁.types (natives.hasPlugin w₁.types cls) ⟨w.heap.instances.size⟩
      scopes.reverse }
  have hsize : w₁.heap.instances.size = w.heap.instances.size := congrArg Array.size hadds.instances
  have hget : (w₁.heap.allocInstance i).2.get ⟨w.heap.instances.size⟩ = i := by
    rw [Heap.get_allocInstance, if_pos hsize.symm]
  refine ⟨⟨w.heap.instances.size⟩, { w₁ with heap := (w₁.heap.allocInstance i).2 }, ?_, ?_⟩
  · rw [construct_eq]
    refine (bind_of_ok (read_apply _ _)).trans ((bind_of_ok (read_apply _ _)).trans ?_)
    refine (bind_of_ok hok).trans ((bind_of_ok (read_apply _ _)).trans ?_)
    rw [onHeap_apply, Heap.allocInstance, hsize]
  · -- The new scopes have consecutive positions, which keeps them apart from each other and from
    -- the old ones.
    have hindex : ∀ entry ∈ scopes, w.heap.scopes.size ≤ entry.2.index := fun entry hentry => by
      have hmem : entry.2.index ∈ scopes.map (·.2.index) := List.mem_map.mpr ⟨entry, hentry, rfl⟩
      rw [hadds.fresh] at hmem
      exact (List.mem_range'_1.mp hmem).1
    have hdistinct : (scopes.map (·.2)).Nodup := by
      refine List.Nodup.of_map Handle.index ?_
      rw [List.map_map]
      exact (congrArg List.Nodup hadds.fresh).mpr List.nodup_range'
    have hgrown : (w₁.heap.allocInstance i).2.instances.size = w.heap.instances.size + 1 :=
      (Array.size_push ..).trans (congrArg (· + 1) hsize)
    refine ⟨hadds.extends_base, rfl, hgrown, ?_, ?_, ?_, ?_, ?_, hadds.old, ?_⟩
    · exact congrArg Instance.ty hget
    · dsimp only
      rw [hget, List.map_reverse, hadds.listed, Registry.ancestors]
    · dsimp only
      rw [hget]
      exact fun entry hentry => hindex entry (List.mem_reverse.mp hentry)
    · dsimp only
      rw [hget, List.map_reverse, List.nodup_reverse]
      exact hdistinct
    · rw [Registry.ancestors, List.length_reverse]
      exact hadds.size
    · dsimp only
      rw [hget, List.reverse_reverse]
      exact hadds.wires.congr fun _ _ => rfl

end ObjectGraph
