import Mathlib.Data.List.Induction
import ObjectGraph.Check.Checker
import ObjectGraph.Plugin.Builtin
import ObjectGraph.Proofs.Construct
import ObjectGraph.Proofs.Heap.Write
import ObjectGraph.Proofs.Types.Hierarchy

/-!
# Slots and declarations

A new instance has one slot for each property name of its lineage, in the order in which the names
are first declared from the root down. The search for a property goes the other way, from the class
upwards. Both come to the same type: the slot under a name is written last by the nearest type that
declares it (`Effect.construct_slots`).

Within one type they differ. The search takes the first property of the name, and the slot keeps
the last one (`Effect.construct_repeated`), so that the slot is as the checker expects it if the
type declares the name once.
-/

namespace ObjectGraph

/-! ## Placing slots -/

variable {slots : List Slot} {slot : Slot} {name : String}

/-- Placing a slot adds its name at the end, unless the name is there. -/
theorem map_name_placeSlot (slots : List Slot) (slot : Slot) :
    (placeSlot slots slot).map (·.name) =
      if slot.name ∈ slots.map (·.name) then slots.map (·.name)
      else slots.map (·.name) ++ [slot.name] := by
  split
  case isTrue hin =>
    induction slots with
    | nil => cases hin
    | cons first rest ih =>
      rw [placeSlot]
      split
      case isTrue heq => rw [List.map_cons, List.map_cons, heq]
      case isFalse hne =>
        have hrest := (List.mem_cons.mp hin).resolve_left (Ne.symm hne)
        rw [List.map_cons, List.map_cons, ih hrest]
  case isFalse hnot =>
    rw [placeSlot_of_not_mem hnot, List.map_append]
    rfl

/-- Placing a slot puts it under its name, and changes nothing under other names. -/
theorem find?_placeSlot (slots : List Slot) (slot : Slot) (name : String) :
    (placeSlot slots slot).find? (·.name == name) =
      if slot.name = name then some slot else slots.find? (·.name == name) := by
  induction slots with
  | nil => by_cases h : slot.name = name <;> simp [placeSlot, h]
  | cons first rest ih =>
    rw [placeSlot]
    split
    case isTrue heq =>
      by_cases h : slot.name = name
      · simp [h]
      · simp [h, heq]
    case isFalse hne =>
      by_cases h : first.name = name
      · have hslot : slot.name ≠ name := fun hs => hne (h.trans hs.symm)
        simp [h, hslot]
      · simp [h, ih]

/-- Slots that are placed one after the other have each name once, where it came first. -/
theorem map_name_foldl_placeSlot (slots : List Slot) :
    (slots.foldl placeSlot []).map (·.name) = (slots.map (·.name)).eraseDups := by
  -- From the end, where a slot is placed among all that came before it.
  induction slots using List.reverseRecOn with
  | nil => rfl
  | append_singleton slots slot ih =>
    rw [List.foldl_append, List.foldl_cons, List.foldl_nil, map_name_placeSlot, ih,
      List.map_append, List.eraseDups_append, List.map_singleton]
    by_cases hin : slot.name ∈ slots.map (·.name)
    · have hnone : [slot.name].removeAll (slots.map (·.name)) = [] := by
        simpa [List.removeAll] using hin
      rw [if_pos (List.mem_eraseDups.mpr hin), hnone, List.eraseDups_nil, List.append_nil]
    · have hone : [slot.name].removeAll (slots.map (·.name)) = [slot.name] := by
        simpa [List.removeAll] using hin
      rw [if_neg fun h => hin (List.mem_eraseDups.mp h), hone]
      rfl

/-- Under a name they have the slot that was placed last. -/
theorem find?_foldl_placeSlot (slots : List Slot) (name : String) :
    (slots.foldl placeSlot []).find? (·.name == name) = slots.reverse.find? (·.name == name) := by
  induction slots using List.reverseRecOn with
  | nil => rfl
  | append_singleton slots slot ih =>
    rw [List.foldl_append, List.foldl_cons, List.foldl_nil, find?_placeSlot, ih,
      List.reverse_append, List.reverse_singleton, List.singleton_append, List.find?_cons]
    by_cases h : slot.name = name
    · simp [h]
    · rw [if_neg h, beq_false_of_ne h]

/-- No two of them have the same name. -/
theorem nodup_foldl_placeSlot (slots : List Slot) :
    ((slots.foldl placeSlot []).map (·.name)).Nodup := by
  induction slots using List.reverseRecOn with
  | nil => exact List.nodup_nil
  | append_singleton slots slot ih =>
    rw [List.foldl_append, List.foldl_cons, List.foldl_nil, map_name_placeSlot]
    split
    case isTrue => exact ih
    case isFalse hnot =>
      exact ih.append (List.nodup_singleton _) (List.disjoint_singleton.mpr hnot)

/-- Where no two slots have the same name, each is the one under its name. -/
theorem find?_of_mem_slots (hnames : (slots.map (·.name)).Nodup) (hslot : slot ∈ slots) :
    slots.find? (·.name == slot.name) = some slot := by
  have hsome : (slots.find? (·.name == slot.name)).isSome :=
    List.find?_isSome.mpr ⟨slot, hslot, beq_self_eq_true _⟩
  obtain ⟨s, hs⟩ := Option.isSome_iff_exists.mp hsome
  have hkey := List.find?_some hs
  have hname : s.name = slot.name := eq_of_beq hkey
  rw [hs, List.inj_on_of_nodup_map hnames (List.mem_of_find?_eq_some hs) hslot hname]

/-! ## The nearest declaration -/

/-- A name that a type declares at most once is declared last where it is declared first. -/
theorem TypeDef.find?_reverse_properties {d : TypeDef}
    (hone : (d.properties.map (·.name)).count name ≤ 1) :
    d.properties.reverse.find? (·.name == name) = d.property? name := by
  have hlength : (d.properties.filter (·.name == name)).length ≤ 1 := by
    rw [List.count_eq_countP, List.countP_map, List.countP_eq_length_filter] at hone
    exact hone
  rw [TypeDef.property?, ← List.head?_filter, ← List.head?_filter, List.filter_reverse]
  generalize d.properties.filter (·.name == name) = found at hlength
  match found, hlength with
  | [], _ => rfl
  | [p], _ => rfl

/-- From the last property to the first, a name is found if it is found from the first one on. -/
theorem TypeDef.isSome_find?_reverse_properties (d : TypeDef) (name : String) :
    (d.properties.reverse.find? (·.name == name)).isSome = (d.property? name).isSome := by
  rw [TypeDef.property?, Bool.eq_iff_iff, List.find?_isSome, List.find?_isSome]
  simp only [List.mem_reverse]

namespace Registry

variable {r types : Registry} {cls : TypeId} {native : Bool} {id : InstanceId}
  {scopes : List (TypeId × ScopeId)}

/-- The names of the properties of a class and its ancestors, each once, in the order in which they
are first declared from the root down. -/
def propertyNames (r : Registry) (cls : TypeId) : List String :=
  ((r.ancestors cls).flatMap fun t => (r.definition t).properties.map (·.name)).eraseDups

/-- A new instance has a slot for each property name. -/
theorem map_name_initialSlots (hscopes : scopes.map (·.1) = r.ancestors cls)
    (hdef : ∀ t ∈ r.lineage cls, types.definition t = r.definition t) :
    (initialSlots types native id scopes).map (·.name) = r.propertyNames cls := by
  rw [initialSlots, map_name_foldl_placeSlot, propertyNames, ← hscopes, List.map_flatMap,
    List.flatMap_map]
  refine congrArg List.eraseDups (List.flatMap_congr fun entry hentry => ?_)
  have hmem : entry.1 ∈ r.lineage cls := by
    rw [← List.mem_reverse, ← ancestors, ← hscopes]
    exact List.mem_map.mpr ⟨entry, hentry, rfl⟩
  rw [List.map_map, hdef entry.1 hmem]
  rfl

/-- Under a name, a new instance has the last declaration of the nearest type that declares it. -/
theorem find?_initialSlots (name : String) :
    (initialSlots types native id scopes).find? (·.name == name) =
      scopes.reverse.findSome? fun entry =>
        ((types.definition entry.1).properties.reverse.find? (·.name == name)).map
          (initialSlot native id entry.1 entry.2) := by
  rw [initialSlots, find?_foldl_placeSlot, List.reverse_flatMap, List.find?_flatMap]
  refine congrArg (List.findSome? · scopes.reverse) (funext fun entry => ?_)
  rw [Function.comp_apply, ← List.map_reverse, List.find?_map]
  rfl

/-- The search for a property ends at the nearest type that declares it. -/
theorem findProperty_of_nearest {before after : List TypeId} {owner : TypeId} {p : Property}
    (hlineage : r.lineage cls = before ++ owner :: after)
    (hp : (r.definition owner).property? name = some p)
    (hbefore : ∀ t ∈ before, (r.definition t).property? name = none) :
    r.findProperty cls name = some (owner, p) := by
  refine List.findSome?_eq_some_iff.mpr ⟨before, owner, after, hlineage, ?_, fun t ht => ?_⟩
  · rw [hp]
    rfl
  · rw [hbefore t ht]
    rfl

/-- **Slots agree with the search for a property.** Each slot is made of a declaration of the type
that the search ends at, and of the very declaration that the search finds if this type declares
the name once. -/
theorem declaration_of_mem_initialSlots (hscopes : scopes.map (·.1) = r.ancestors cls)
    (hdef : ∀ t ∈ r.lineage cls, types.definition t = r.definition t)
    (hslot : slot ∈ initialSlots types native id scopes) :
    ∃ owner scope p q, (owner, scope) ∈ scopes ∧
      r.findProperty cls slot.name = some (owner, p) ∧
      slot = initialSlot native id owner scope q ∧
      (((r.definition owner).properties.map (·.name)).count slot.name ≤ 1 → q = p) := by
  have hlineage : r.lineage cls = scopes.reverse.map (·.1) := by
    rw [List.map_reverse, hscopes, ancestors, List.reverse_reverse]
  have hfind := find?_of_mem_slots (nodup_foldl_placeSlot _) hslot
  rw [← initialSlots, find?_initialSlots] at hfind
  obtain ⟨before, ⟨owner, scope⟩, after, hsplit, hhere, hbefore⟩ :=
    List.findSome?_eq_some_iff.mp hfind
  obtain ⟨q, hq, hmade⟩ := Option.map_eq_some_iff.mp hhere
  rw [hsplit, List.map_append, List.map_cons] at hlineage
  rw [hdef owner (by rw [hlineage]; exact List.mem_append_right _ List.mem_cons_self)] at hq
  -- The nearest type where a last declaration is found is the nearest one to declare the name.
  have hsome : ((r.definition owner).property? slot.name).isSome = true := by
    rw [← TypeDef.isSome_find?_reverse_properties, hq]
    rfl
  obtain ⟨p, hp⟩ := Option.isSome_iff_exists.mp hsome
  have hnone : ∀ t ∈ before.map (·.1), (r.definition t).property? slot.name = none := by
    intro t ht
    obtain ⟨entry, hentry, rfl⟩ := List.mem_map.mp ht
    have hlast := Option.map_eq_none_iff.mp (hbefore entry hentry)
    rw [hdef entry.1 (by rw [hlineage]; exact List.mem_append_left _ ht)] at hlast
    rw [← Option.not_isSome_iff_eq_none, ← TypeDef.isSome_find?_reverse_properties, hlast]
    exact Bool.false_ne_true
  have hentry : (owner, scope) ∈ scopes := by
    rw [← List.mem_reverse, hsplit]
    exact List.mem_append_right _ List.mem_cons_self
  refine ⟨owner, scope, p, q, hentry, findProperty_of_nearest hlineage hp hnone, hmade.symm,
    fun hone => ?_⟩
  rw [TypeDef.find?_reverse_properties hone, hp] at hq
  exact (Option.some.inj hq).symm

end Registry

/-! ## Construction -/

/-- Each type of a lineage has the constructor scope that was allocated for it. -/
theorem Instance.constructorScope?_of_mem {i : Instance} {owner : TypeId} {scope : ScopeId}
    (hnodup : (i.scopes.map (·.1)).Nodup) (hmem : (owner, scope) ∈ i.scopes) :
    i.constructorScope? owner = some scope := by
  obtain ⟨before, after, hsplit⟩ := List.append_of_mem hmem
  rw [hsplit, List.map_append, List.map_cons, List.nodup_append] at hnodup
  rw [constructorScope?, hsplit]
  refine List.lookup_eq_some_iff.mpr ⟨before, after, rfl, fun entry hentry => ?_⟩
  have hne : entry.1 ≠ owner :=
    hnodup.2.2 _ (List.mem_map.mpr ⟨entry, hentry, rfl⟩) _ List.mem_cons_self
  exact bne_iff_ne.mpr (Ne.symm hne)

/-- A property that the search finds is the member that the checker finds. -/
theorem Checker.checkMember_of_findProperty {c : Checker} {ty owner : TypeId} {name : String}
    {p : Property} (hclass : c.types.kind ty = .nominal)
    (hfound : c.types.findProperty ty name = some (owner, p)) (loc : Location) :
    checkMember ty name loc c = (p.ty, c) := by
  have hpoison : c.types.isPoison ty = false := by
    rw [Registry.isPoison, hclass]
    rfl
  unfold checkMember
  simp only [bind, StateT.bind, get, getThe, MonadStateOf.get, StateT.get, pure]
  rw [hpoison, if_neg Bool.false_ne_true, hfound]
  rfl

namespace Effect

variable {σ : Type}

/-- The constructor scopes of a lineage are one for each of its types, root first. Allocating them
changes no instance. -/
theorem constructorScopes_spec (cls : TypeId) (receiver : InstanceId) (lineage : List TypeId)
    (args : List Expr) (w : World σ) :
    ∃ scopes w', constructorScopes cls receiver lineage args w = .ok scopes w' ∧
      scopes.map (·.1) = lineage.reverse ∧ w.types.Extends w'.types ∧
      w'.heap.instances = w.heap.instances := by
  induction lineage generalizing args w with
  | nil => exact ⟨[], w, rfl, rfl, .refl, rfl⟩
  | cons ty rest ih =>
    obtain ⟨types, methods, hx, -, hown⟩ := constructorScope_apply cls ty receiver args w
    obtain ⟨scopes, w', hrest, hnames, hx', hinstances⟩ := ih
      ((types.definition ty).parentArgs.map (.scoped ⟨w.heap.scopes.size⟩))
      { w with
        types
        heap := (w.heap.allocScope
          { receiver := some receiver
            bindings := bindParams (w.types.definition ty).params args ++ methods }).2 }
    refine ⟨scopes ++ [(ty, ⟨w.heap.scopes.size⟩)], w', ?_, ?_, hx.trans hx', hinstances⟩
    · rw [constructorScopes, bind_of_ok hown, bind_of_ok (read_apply _ _), bind_of_ok hrest]
      rfl
    · rw [List.map_append, hnames, List.reverse_cons]
      rfl

/-- What a new instance is. -/
theorem construct_spec (natives : Natives σ) (cls : TypeId) (args : List Expr) (w : World σ) :
    ∃ id w' native scopes, construct natives cls args w = .ok id w' ∧
      w.types.Extends w'.types ∧ scopes.map (·.1) = w.types.ancestors cls ∧
      w'.heap.get id =
        { ty := cls, payload := .none, scopes, sealed := false
          slots := initialSlots w'.types native id scopes } := by
  let new : InstanceId := ⟨w.heap.instances.size⟩
  let w₁ : World σ := { w with heap := (w.heap.allocInstance
    { ty := cls, payload := .none, scopes := [], sealed := false, slots := [] }).2 }
  obtain ⟨scopes, w₂, hscopes, hnames, hx, hinstances⟩ :=
    constructorScopes_spec cls new (w.types.lineage cls) args w₁
  have hnew : w₂.heap.get new = w₁.heap.get new ∧ new.index < w₂.heap.instances.size := by
    refine ⟨congrArg (·.getD new.index default) hinstances, ?_⟩
    rw [hinstances]
    show w.heap.instances.size < (w.heap.instances.push _).size
    rw [Array.size_push]
    exact Nat.lt_succ_self _
  refine ⟨new, { w₂ with heap := w₂.heap.modifyInstance new fun i =>
    { i with scopes, slots := initialSlots w₂.types (natives.hasPlugin w₂.types cls) new scopes } },
    natives.hasPlugin w₂.types cls, scopes, ?_, hx, hnames, ?_⟩
  · refine (bind_of_ok (onHeap_apply _ _)).trans ((bind_of_ok (read_apply _ _)).trans ?_)
    refine (bind_of_ok hscopes).trans ((bind_of_ok (read_apply _ _)).trans ?_)
    exact (bind_of_ok (modifyHeap_apply _ _)).trans rfl
  · rw [Heap.get_modifyInstance, if_pos ⟨rfl, hnew.2⟩, hnew.1, Heap.get_allocInstance, if_pos rfl]

/-- **The slots of a new instance agree with the search for a property.** Where no type is among its
own ancestors, construction makes one slot for each property name that the class or an ancestor
declares, in the order in which they are first declared from the root down. Each slot belongs to the
type that the search for its name ends at, and the checker gives the member the type of the
declaration that the search finds. If that type declares the name once, this is the slot's type too,
and an initializer of the declaration is the slot's value, in the type's constructor scope. -/
theorem construct_slots (natives : Natives σ) {w : World σ} {cls : TypeId} (args : List Expr)
    (hfree : w.types.LoopFree)
    (hparents : ∀ {ty parent : TypeId},
      w.types.parent ty = some parent → parent.index < w.types.size)
    (hcls : cls.index < w.types.size) (hclass : w.types.kind cls = .nominal) :
    ∃ id w', construct natives cls args w = .ok id w' ∧
      (w'.heap.get id).slots.map (·.name) = w.types.propertyNames cls ∧
      ∀ slot ∈ (w'.heap.get id).slots, ∃ owner p,
        w.types.findProperty cls slot.name = some (owner, p) ∧ slot.declaring = owner ∧
        (∀ loc c, c.types = w.types → Checker.checkMember cls slot.name loc c = (p.ty, c)) ∧
        (((w.types.definition owner).properties.map (·.name)).count slot.name ≤ 1 →
          slot.ty = p.ty ∧ ∀ init, p.initializer = some init → ∃ scope,
            (w'.heap.get id).constructorScope? owner = some scope ∧
              slot.expr = .scoped scope init) := by
  obtain ⟨id, w', native, scopes, hok, hx, hscopes, hget⟩ := construct_spec natives cls args w
  have hdef : ∀ t ∈ w.types.lineage cls, w'.types.definition t = w.types.definition t :=
    fun t ht => hx.definition (Registry.lt_size_of_mem_lineage hparents hcls ht)
  -- Without loops each ancestor comes once, so that its scope is the one that is found for it.
  have hnodup : (scopes.map (·.1)).Nodup := by
    rw [hscopes, Registry.ancestors, List.nodup_reverse]
    exact hfree.nodup_lineage cls
  refine ⟨id, w', hok, ?_, fun slot hslot => ?_⟩
  · rw [hget]
    exact Registry.map_name_initialSlots hscopes hdef
  · rw [hget] at hslot
    obtain ⟨owner, scope, p, q, hentry, hfound, hmade, hone⟩ :=
      Registry.declaration_of_mem_initialSlots hscopes hdef hslot
    refine ⟨owner, p, hfound, by rw [hmade]; rfl, fun loc c hc => ?_, fun hcount => ?_⟩
    · exact Checker.checkMember_of_findProperty (hc ▸ hclass) (hc ▸ hfound) loc
    · obtain rfl := hone hcount
      refine ⟨by rw [hmade]; rfl, fun init hinit => ⟨scope, ?_, ?_⟩⟩
      · rw [hget]
        exact Instance.constructorScope?_of_mem hnodup hentry
      · rw [hmade, initialSlot, hinit]

end Effect

/-! ## Declaring a name again -/

/-- `B` extends `A` and declares one of its two properties again. -/
def Registry.redeclaring : Registry :=
  (twoClasses.defineClass ⟨7⟩
      { properties := [⟨"a", .visible, .int, some (.int 1)⟩, ⟨"b", .visible, .int, some (.int 2)⟩] }
    ).defineClass ⟨8⟩
      { parent := some ⟨7⟩
        properties := [⟨"a", .visible, .string, some (.string "x")⟩] }

/-- A property that is declared again keeps its place among the slots, and has the type and the
initializer that the class gives it. -/
theorem Effect.construct_slots_redeclaring :
    Registry.redeclaring.LoopFree ∧
      ∃ id w', construct .builtin ⟨8⟩ [] (World.ofTypes .redeclaring ()) = .ok id w' ∧
        (w'.heap.get id).slots.map (·.name) = ["a", "b"] ∧
        ∃ slot ∈ (w'.heap.get id).slots, ∃ scope,
          slot.name = "a" ∧ slot.declaring = ⟨8⟩ ∧ slot.ty = .string ∧
          (w'.heap.get id).constructorScope? ⟨8⟩ = some scope ∧
          slot.expr = .scoped scope (.string "x") := by
  have hfree : Registry.redeclaring.LoopFree := Registry.loopFree_of_lt (by decide +kernel)
  have hparents : ∀ i < Registry.redeclaring.size, ∀ p ∈ Registry.redeclaring.parent ⟨i⟩,
      p.index < Registry.redeclaring.size := by
    decide +kernel
  have hcls : (⟨8⟩ : TypeId).index < Registry.redeclaring.size := by decide +kernel
  have hclass : Registry.redeclaring.kind ⟨8⟩ = .nominal := by decide +kernel
  obtain ⟨id, w', hok, hnames, hslots⟩ :=
    construct_slots .builtin (w := World.ofTypes .redeclaring ()) [] hfree
      (fun {ty parent} hp => hparents _ (Registry.lt_size_of_parent hp) _ hp) hcls hclass
  have hab : Registry.redeclaring.propertyNames ⟨8⟩ = ["a", "b"] := by decide +kernel
  have hin : "a" ∈ (w'.heap.get id).slots.map (·.name) := by
    rw [hnames]
    show "a" ∈ Registry.redeclaring.propertyNames ⟨8⟩
    rw [hab]
    exact List.mem_cons_self
  obtain ⟨slot, hslot, hname⟩ := List.mem_map.mp hin
  obtain ⟨owner, p, hfound, hdeclaring, -, hmatches⟩ := hslots slot hslot
  have hb : Registry.redeclaring.findProperty ⟨8⟩ "a" =
      some (⟨8⟩, ⟨"a", .visible, .string, some (.string "x")⟩) := rfl
  rw [hname] at hfound hmatches
  obtain ⟨rfl, rfl⟩ := Prod.mk.inj (Option.some.inj (hb.symm.trans hfound))
  obtain ⟨hty, hinit⟩ := hmatches (by decide +kernel)
  obtain ⟨scope, hscope, hexpr⟩ := hinit _ rfl
  exact ⟨hfree, id, w', hok, hnames.trans hab, slot, hslot, scope, hname, hdeclaring, hty, hscope,
    hexpr⟩

/-- A class that declares a name twice, first as an integer and then as a text. -/
def Registry.repeating : Registry :=
  ofClass { properties := [⟨"a", .visible, .int, some (.int 1)⟩,
    ⟨"a", .visible, .string, some (.string "x")⟩] }

/-- An object of the class has one slot under the name. It is a text, and the search for the
property finds an integer, which is the type that the checker gives the member. -/
theorem Effect.construct_repeated :
    Registry.repeating.LoopFree ∧
      (∃ id w', construct .builtin .main [] (World.ofTypes .repeating ()) = .ok id w' ∧
        (w'.heap.get id).slots.map (fun s => (s.name, s.ty)) = [("a", .string)]) ∧
      (Registry.repeating.findProperty .main "a").map (·.2.ty) = some .int ∧
      ∀ loc c, c.types = .repeating → Checker.checkMember .main "a" loc c = (.int, c) := by
  have hfound : Registry.repeating.findProperty .main "a" =
      some (.main, ⟨"a", .visible, .int, some (.int 1)⟩) := rfl
  refine ⟨Registry.loopFree_of_lt (by decide +kernel), ?_, congrArg (Option.map (·.2.ty)) hfound,
    fun loc c hc => ?_⟩
  · have hslots : (match construct .builtin .main [] (World.ofTypes .repeating ()) with
        | .ok id w =>
          decide ((w.heap.get id).slots.map (fun s => (s.name, s.ty)) = [("a", .string)])
        | .error _ _ => false) = true := by
      decide +kernel
    cases hrun : construct .builtin .main [] (World.ofTypes .repeating ()) with
    | error e w => rw [hrun] at hslots; cases hslots
    | ok id w =>
      rw [hrun] at hslots
      exact ⟨id, w, rfl, of_decide_eq_true hslots⟩
  · have hclass : Registry.repeating.kind .main = .nominal := by decide +kernel
    exact Checker.checkMember_of_findProperty (hc ▸ hclass) (hc ▸ hfound) loc

end ObjectGraph
