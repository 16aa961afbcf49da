import Mathlib.Data.List.Nodup
import Mathlib.Data.List.Perm.Subperm
import ObjectGraph.Proofs.Types.Growth
import ObjectGraph.Types.Lineage

/-!
# Class hierarchies

A search along the parents of a type goes on until it finds something or comes to a type without
a parent (`Registry.Search`), and no bound stops it. It ends if no type on its way is among its own
ancestors (`Registry.line_iff`), and then the registry gives its answer (`Registry.WalksEnd`).

A class gets its final parent when it is completed, after other classes may have been declared and
completed below it. So the order of registration is no measure. What decides is what each class is
completed with: a parent that is the class itself or has it among its ancestors closes a loop, and
every other parent leaves the registry as free of loops as it was (`LoopFree.defineClass_iff`).
-/

namespace ObjectGraph.Registry

variable {r r' : Registry} {ty parent cls : TypeId}

/-! ## Going up -/

/-- `ancestor` is the parent of `ty`, or the parent of its parent, and so on. -/
def Descends (r : Registry) (ty ancestor : TypeId) : Prop :=
  Relation.TransGen (fun ty parent => r.parent ty = some parent) ty ancestor

/-- No type is among its own ancestors. -/
def LoopFree (r : Registry) : Prop := ∀ ty, ¬ r.Descends ty ty

/-- The types from `ty` up to one without a parent. -/
inductive Line (r : Registry) : TypeId → List TypeId → Prop
  /-- A type without a parent stands alone. -/
  | root {ty : TypeId} (hp : r.parent ty = none) : Line r ty [ty]
  /-- Otherwise the types from its parent on follow. -/
  | child {ty parent : TypeId} {rest : List TypeId} (hp : r.parent ty = some parent)
      (next : Line r parent rest) : Line r ty (ty :: rest)

/-- A search from `ty` upwards for the first type that `find` gives something for. It ends, with
what was found if anything was. -/
inductive Search {α : Type} (r : Registry) (find : TypeId → Option α) : TypeId → Option α → Prop
  /-- The search ends at a type that something is found at. -/
  | found {ty : TypeId} {a : α} (h : find ty = some a) : Search r find ty (some a)
  /-- It ends at a type without a parent. -/
  | root {ty : TypeId} (h : find ty = none) (hp : r.parent ty = none) : Search r find ty none
  /-- Otherwise it goes on with the parent. -/
  | above {ty parent : TypeId} {a : Option α} (h : find ty = none)
      (hp : r.parent ty = some parent) (next : Search r find parent a) : Search r find ty a

/-- The searches from a type end, whatever they are for, and the registry gives their answers. -/
structure WalksEnd (r : Registry) (ty : TypeId) : Prop where
  /-- The ancestors. -/
  ancestors : r.Line ty (r.ancestors ty).reverse
  /-- The test for a superclass. -/
  isSubclass : ∀ sup, ∃ a, r.Search (fun t => if t = sup then some t else none) ty a ∧
    r.isSubclass ty sup = a.isSome
  /-- The nearest property of a name. -/
  findProperty : ∀ name,
    r.Search (fun t => ((r.definition t).property? name).map (t, ·)) ty (r.findProperty ty name)
  /-- The nearest method of a name. -/
  findMethod : ∀ name,
    r.Search (fun t => ((r.definition t).methodIndex? name).map (⟨t, ·⟩)) ty (r.findMethod ty name)

/-- A search along a line ends with what is found first on the line. -/
theorem Line.search {α : Type} {types : List TypeId} (h : r.Line ty types)
    (find : TypeId → Option α) : r.Search find ty (types.findSome? find) := by
  induction h with
  | @root ty hp =>
    rw [List.findSome?_cons, List.findSome?_nil]
    cases hfind : find ty with
    | none => exact .root hfind hp
    | some a => exact .found hfind
  | @child ty parent rest hp next ih =>
    rw [List.findSome?_cons]
    cases hfind : find ty with
    | none => exact .above hfind hp ih
    | some a => exact .found hfind

/-- A search that finds nothing has gone along a line. -/
theorem Search.exists_line {α : Type} {find : TypeId → Option α} (h : r.Search find ty none) :
    ∃ types, r.Line ty types := by
  generalize ha : (none : Option α) = a at h
  induction h with
  | found _ => cases ha
  | root _ hp => exact ⟨_, .root hp⟩
  | above _ hp _ ih =>
    obtain ⟨rest, hline⟩ := ih ha
    exact ⟨_, .child hp hline⟩

/-- What a search ends with was found at some type. -/
theorem Search.exists_of_some {α : Type} {find : TypeId → Option α} {a : α}
    (h : r.Search find ty (some a)) : ∃ t, find t = some a := by
  generalize ha : some a = answer at h
  induction h with
  | found hfind => exact ⟨_, hfind⟩
  | root _ _ => cases ha
  | above _ _ _ ih => exact ih ha

/-- Where the lineage of a type reaches its root, the searches from it end. -/
theorem Line.walksEnd (h : r.Line ty (r.lineage ty)) : r.WalksEnd ty where
  ancestors := by
    rw [ancestors, List.reverse_reverse]
    exact h
  isSubclass sup := by
    refine ⟨_, h.search _, ?_⟩
    rw [Registry.isSubclass, Bool.eq_iff_iff, List.contains_iff_mem, List.isSome_findSome?,
      List.any_eq_true]
    simp
  findProperty name := h.search _
  findMethod name := h.search _

/-! ## Lines and loops -/

/-- A type has one line. -/
theorem Line.unique {types types' : List TypeId} (h : r.Line ty types) (h' : r.Line ty types') :
    types = types' := by
  induction h generalizing types' with
  | root hp =>
    cases h' with
    | root _ => rfl
    | child hp' _ => exact absurd (hp.symm.trans hp') (by simp)
  | child hp _ ih =>
    cases h' with
    | root hp' => exact absurd (hp.symm.trans hp') (by simp)
    | child hp' next' =>
      obtain rfl := Option.some.inj (hp.symm.trans hp')
      rw [ih next']

/-- The line of an ancestor is shorter. -/
theorem Line.of_descends {ancestor : TypeId} {types : List TypeId} (h : r.Line ty types)
    (hd : r.Descends ty ancestor) : ∃ rest, r.Line ancestor rest ∧ rest.length < types.length := by
  have hstep : ∀ {ty parent : TypeId} {types : List TypeId}, r.Line ty types →
      r.parent ty = some parent → ∃ rest, r.Line parent rest ∧ rest.length < types.length := by
    intro ty parent types h hparent
    cases h with
    | root hp => exact absurd (hp.symm.trans hparent) (by simp)
    | child hp next =>
      obtain rfl := Option.some.inj (hp.symm.trans hparent)
      exact ⟨_, next, Nat.lt_succ_self _⟩
  induction hd with
  | single hp => exact hstep h hp
  | tail _ hp ih =>
    obtain ⟨rest, hline, hlt⟩ := ih
    obtain ⟨rest', hline', hlt'⟩ := hstep hline hp
    exact ⟨rest', hline', Nat.lt_trans hlt' hlt⟩

/-- The ancestors within a number of steps make up a line, or there are so many of them and each
of the types has a parent. -/
theorem line_or_parents (fuel : ℕ) (ty : TypeId) :
    r.Line ty (ty :: r.ancestorsWithin fuel ty) ∨
      ((r.ancestorsWithin fuel ty).length = fuel ∧
        ∀ t ∈ ty :: r.ancestorsWithin fuel ty, (r.parent t).isSome) := by
  induction fuel generalizing ty with
  | zero =>
    cases hp : r.parent ty with
    | none => exact .inl (.root hp)
    | some parent =>
      refine .inr ⟨rfl, fun t ht => ?_⟩
      obtain rfl := List.mem_singleton.mp ht
      rw [hp]
      rfl
  | succ fuel ih =>
    rw [ancestorsWithin]
    cases hp : r.parent ty with
    | none => exact .inl (.root hp)
    | some parent =>
      refine (ih parent).imp (.child hp) fun hmany => ?_
      obtain ⟨hlength, hparents⟩ := hmany
      refine ⟨congrArg Nat.succ hlength, fun t ht => ?_⟩
      rcases List.mem_cons.mp ht with rfl | ht
      · rw [hp]
        rfl
      · exact hparents t ht

/-- The ancestors within a number of steps descend from one another. -/
theorem pairwise_ancestorsWithin (fuel : ℕ) (ty : TypeId) :
    (ty :: r.ancestorsWithin fuel ty).Pairwise r.Descends := by
  have : IsTrans TypeId r.Descends := ⟨fun _ _ _ => Relation.TransGen.trans⟩
  rw [← List.isChain_iff_pairwise]
  induction fuel generalizing ty with
  | zero => exact .singleton _
  | succ fuel ih =>
    rw [ancestorsWithin]
    cases hp : r.parent ty with
    | none => exact .singleton _
    | some parent => exact .cons_cons (.single hp) (ih parent)

/-- Distinct types that all have parents are no more than there are types. -/
theorem length_le_size {types : List TypeId} (hnodup : types.Nodup)
    (h : ∀ t ∈ types, (r.parent t).isSome) : types.length ≤ r.size := by
  have hindices : (types.map TypeId.index).Nodup :=
    List.Nodup.map (fun _ _ hab => congrArg TypeId.mk hab) hnodup
  have hrange : types.map TypeId.index ⊆ List.range r.size := by
    intro i hi
    obtain ⟨t, ht, rfl⟩ := List.mem_map.mp hi
    obtain ⟨parent, hp⟩ := Option.isSome_iff_exists.mp (h t ht)
    exact List.mem_range.mpr (lt_size_of_parent hp)
  simpa using (hindices.subperm hrange).length_le

/-- The lineage of a type reaches its root if there is no loop above the type. -/
theorem line_lineage (h : ∀ a, a = ty ∨ r.Descends ty a → ¬ r.Descends a a) :
    r.Line ty (r.lineage ty) := by
  have hpairwise := pairwise_ancestorsWithin (r := r) r.size ty
  have habove : ∀ t ∈ r.lineage ty, t = ty ∨ r.Descends ty t := fun t ht =>
    (List.mem_cons.mp ht).imp_right (List.rel_of_pairwise_cons hpairwise)
  have hnodup : (r.lineage ty).Nodup := by
    refine List.Pairwise.imp_of_mem (fun {a b} ha _ hab heq => ?_) hpairwise
    exact h a (habove a ha) (heq ▸ hab)
  refine (line_or_parents r.size ty).resolve_right fun hmany => ?_
  obtain ⟨hlength, hparents⟩ := hmany
  have hle := length_le_size hnodup hparents
  rw [lineage, List.length_cons, hlength] at hle
  exact absurd hle (Nat.not_succ_le_self _)

/-- The types above a type end with a root if and only if none of them is among its own
ancestors. -/
theorem line_iff :
    (∃ types, r.Line ty types) ↔ ∀ a, a = ty ∨ r.Descends ty a → ¬ r.Descends a a := by
  refine ⟨fun ⟨types, hline⟩ a ha hloop => ?_, fun h => ⟨_, line_lineage h⟩⟩
  obtain ⟨above, habove⟩ : ∃ above, r.Line a above := by
    rcases ha with rfl | hd
    · exact ⟨types, hline⟩
    · obtain ⟨above, habove, -⟩ := hline.of_descends hd
      exact ⟨above, habove⟩
  obtain ⟨rest, hrest, hlt⟩ := habove.of_descends hloop
  rw [habove.unique hrest] at hlt
  exact Nat.lt_irrefl _ hlt

/-- The line of a type begins with the type. -/
theorem Line.mem_self {types : List TypeId} (h : r.Line ty types) : ty ∈ types := by
  cases h <;> exact List.mem_cons_self

/-- With a type its parent is in a line. -/
theorem Line.mem_parent {types : List TypeId} {t p : TypeId} (h : r.Line ty types) (ht : t ∈ types)
    (hp : r.parent t = some p) : p ∈ types := by
  induction h with
  | root hroot =>
    obtain rfl := List.mem_singleton.mp ht
    cases hroot.symm.trans hp
  | child hparent next ih =>
    rcases List.mem_cons.mp ht with rfl | ht
    · obtain rfl := Option.some.inj (hparent.symm.trans hp)
      exact List.mem_cons_of_mem _ next.mem_self
    · exact List.mem_cons_of_mem _ (ih ht)

/-- With a type all that is above it is in a line. -/
theorem Line.mem_of_descends {types : List TypeId} {a : TypeId} (h : r.Line cls types)
    (hty : ty ∈ types) (hd : r.Descends ty a) : a ∈ types := by
  induction hd with
  | single hp => exact h.mem_parent hty hp
  | tail _ hp ih => exact h.mem_parent ih hp

/-- A type of the lineage is the type itself or above it. -/
theorem eq_or_descends_of_mem_lineage {t : TypeId} (ht : t ∈ r.lineage ty) :
    t = ty ∨ r.Descends ty t :=
  (List.mem_cons.mp ht).imp_right (List.rel_of_pairwise_cons (pairwise_ancestorsWithin _ _))

/-- With a type its lineage is in a line. -/
theorem Line.mem_lineage {types : List TypeId} {t : TypeId} (h : r.Line cls types)
    (hty : ty ∈ types) (ht : t ∈ r.lineage ty) : t ∈ types := by
  rcases eq_or_descends_of_mem_lineage ht with rfl | hd
  · exact hty
  · exact h.mem_of_descends hty hd

/-- Where every type is registered after its parent, no type is among its own ancestors. -/
theorem loopFree_of_lt (h : ∀ i < r.size, ∀ p ∈ r.parent ⟨i⟩, p.index < i) : r.LoopFree := by
  have hdown : ∀ {ty a : TypeId}, r.Descends ty a → a.index < ty.index := by
    intro ty a hd
    induction hd with
    | single hp => exact h _ (lt_size_of_parent hp) _ hp
    | tail _ hp ih => exact Nat.lt_trans (h _ (lt_size_of_parent hp) _ hp) ih
  exact fun ty hloop => Nat.lt_irrefl _ (hdown hloop)

/-- Every type of a lineage is registered. -/
theorem lt_size_of_mem_lineage
    (hparents : ∀ {ty parent : TypeId}, r.parent ty = some parent → parent.index < r.size)
    (hcls : cls.index < r.size) {t : TypeId} (ht : t ∈ r.lineage cls) : t.index < r.size := by
  rcases eq_or_descends_of_mem_lineage ht with rfl | hd
  · exact hcls
  · obtain ⟨_, -, hp⟩ := Relation.TransGen.tail'_iff.mp hd
    exact hparents hp

/-- Without loops no type is in a lineage twice. -/
theorem LoopFree.nodup_lineage (h : r.LoopFree) (cls : TypeId) : (r.lineage cls).Nodup := by
  refine (pairwise_ancestorsWithin r.size cls).imp fun {a b} hd heq => ?_
  subst heq
  exact h a hd

/-- Without loops the subclasses of a type are the type itself and all that descends from it. -/
theorem LoopFree.isSubclass_iff (h : r.LoopFree) {sub sup : TypeId} :
    r.isSubclass sub sup = true ↔ sup = sub ∨ r.Descends sub sup := by
  rw [isSubclass, List.contains_iff_mem]
  constructor
  · exact eq_or_descends_of_mem_lineage
  · have hline : r.Line sub (r.lineage sub) := line_lineage fun a _ => h a
    rintro (rfl | hd)
    · exact hline.mem_self
    · exact hline.mem_of_descends hline.mem_self hd

/-- Without loops a subclass of a subclass is a subclass. -/
theorem LoopFree.isSubclass_trans (h : r.LoopFree) {s t u : TypeId}
    (hst : r.isSubclass s t = true) (htu : r.isSubclass t u = true) : r.isSubclass s u = true := by
  rw [h.isSubclass_iff] at hst htu ⊢
  rcases hst with rfl | hst
  · exact htu
  · rcases htu with rfl | htu
    · exact .inr hst
    · exact .inr (hst.trans htu)

/-- Without loops no two types are subclasses of each other. -/
theorem LoopFree.isSubclass_antisymm (h : r.LoopFree) {s t : TypeId}
    (hst : r.isSubclass s t = true) (hts : r.isSubclass t s = true) : s = t := by
  rw [h.isSubclass_iff] at hst hts
  rcases hst with rfl | hst
  · rfl
  · rcases hts with rfl | hts
    · rfl
    · exact absurd (hst.trans hts) (h s)

/-- Without loops the searches from every type end. -/
theorem LoopFree.walksEnd (h : r.LoopFree) (ty : TypeId) : r.WalksEnd ty :=
  (line_lineage fun a _ => h a).walksEnd

/-! ## Building a registry -/

/-- A class that has been declared and may be completed. -/
structure Declared (r : Registry) (cls : TypeId) : Prop where
  /-- The class is registered. -/
  registered : cls.index < r.size
  /-- It is not built in. -/
  declared : TypeId.builtinCount ≤ cls.index
  /-- It is a class. -/
  nominal : r.kind cls = .nominal

/-- The parent that a class is completed with, if any, is neither the class nor has it among its
ancestors. -/
def Admits (r : Registry) (cls : TypeId) (body : ClassBody) : Prop :=
  ∀ p ∈ body.parent, p ≠ cls ∧ ¬ r.Descends p cls

/-- What a program does to a registry, with registered types for parents. The parameter says what
its classes may be completed with. -/
inductive Assembly (admits : Registry → TypeId → ClassBody → Prop) (r : Registry) :
    Registry → Prop
  /-- A class is declared. -/
  | declare {key : String} {parent : Option TypeId} {cls : TypeId} {r' : Registry}
      (registered : ∀ p ∈ parent, p.index < r.size)
      (free : r.declareClass key parent = .ok (cls, r')) : Assembly admits r r'
  /-- An array type, a function type or a placeholder is asked for. -/
  | request (q : Request) (allowed : q.Allowed .free r) : Assembly admits r (q.answer r).2
  /-- A poison type is made. -/
  | poison : Assembly admits r (newPoison r).2
  /-- A declared class is completed. -/
  | define {cls : TypeId} {body : ClassBody} (declared : r.Declared cls)
      (registered : ∀ p ∈ body.parent, p.index < r.size) (admitted : admits r cls body) :
      Assembly admits r (r.defineClass cls body)

/-- The registry is built from the initial one. -/
abbrev Assembled (admits : Registry → TypeId → ClassBody → Prop) (r : Registry) : Prop :=
  Relation.ReflTransGen (Assembly admits) initial r

variable {admits : Registry → TypeId → ClassBody → Prop}

/-- What a program does is among the steps of registries. -/
theorem Assembly.step (h : Assembly admits r r') : Step .free r r' := by
  cases h with
  | declare registered free => exact .register rfl trivial free
  | request q allowed => exact .request q allowed
  | poison => exact .poison
  | define declared registered admitted => exact .complete _ _ (fun _ => rfl) fun _ => rfl

/-- A registry that a program builds is one that arises. -/
theorem Assembled.reachable (h : Assembled admits r) : Reachable .free r :=
  Relation.ReflTransGen.mono (fun _ _ => Assembly.step) _ _ h

/-- Every parent is registered, array types are below the built-in one, and the built-in types are
at their places. -/
structure Rooted (r : Registry) : Prop where
  /-- Parents are registered. -/
  parents : ∀ {ty parent : TypeId}, r.parent ty = some parent → parent.index < r.size
  /-- The parent of an array type is the type of arrays of anything. -/
  arrays : ∀ {ty element : TypeId}, r.kind ty = .array element → ty ≠ .anyArray →
    r.parent ty = some .anyArray
  /-- The built-in types are at their places. -/
  builtins : r.HasBuiltins

namespace Rooted

/-- The built-in types are rooted. -/
theorem initial : Registry.initial.Rooted where
  parents {ty parent} hp := by
    have hlt : ty.index < 7 := lt_size_of_parent hp
    have hall : ∀ i < 7, ∀ p ∈ Registry.initial.parent ⟨i⟩, p.index < Registry.initial.size := by
      decide +kernel
    exact hall ty.index hlt parent hp
  arrays {ty element} hkind hne := by
    by_cases hlt : ty.index < 7
    · have hall : ∀ i < 6, Registry.initial.kind ⟨i⟩ = .nominal := by decide +kernel
      have hsix : ty.index ≠ 6 := fun heq => hne (congrArg TypeId.mk heq)
      have hnominal : Registry.initial.kind ty = .nominal := hall ty.index (by omega)
      rw [hnominal] at hkind
      cases hkind
    · have hle : Registry.initial.size ≤ ty.index := Nat.le_of_not_lt hlt
      have hnone : Registry.initial.defs[ty.index]? = none := Array.getElem?_eq_none hle
      rw [kind, definition, Array.getD_eq_getD_getElem?, hnone] at hkind
      cases hkind
  builtins := hasBuiltins_initial

/-- A definition may be added if its parent is registered and an array type is below the built-in
one. -/
theorem insert (h : r.Rooted) {d : TypeDef} (hparent : ∀ p ∈ d.parent, p.index < r.size)
    (harray : ∀ element, d.kind = .array element → d.parent = some .anyArray) :
    (Registry.insert d r).2.Rooted where
  parents {ty parent} hp := by
    rw [size_insert]
    rw [Registry.parent, definition_insert] at hp
    split at hp
    · exact Nat.lt_succ_of_lt (hparent _ hp)
    · exact Nat.lt_succ_of_lt (h.parents hp)
  arrays {ty element} hkind hne := by
    rw [Registry.parent, definition_insert]
    rw [kind, definition_insert] at hkind
    split at hkind
    · rw [if_pos (by assumption)]
      exact harray element hkind
    · rw [if_neg (by assumption)]
      exact h.arrays hkind hne
  builtins := h.builtins.extend (.insert d)

end Rooted

/-- What one step does: nothing, or it adds a definition with a registered parent, or it completes
a class. -/
theorem Assembly.inversion (hs : Assembly admits r r') (hb : r.HasBuiltins) :
    r' = r ∨
    (∃ poisons d, (∀ p ∈ d.parent, p.index < r.size) ∧
      (∀ element, d.kind = .array element → d.parent = some .anyArray) ∧
      r' = (Registry.insert d { r with poisons }).2) ∨
    ∃ cls body, r.Declared cls ∧ (∀ p ∈ body.parent, p.index < r.size) ∧ admits r cls body ∧
      r' = r.defineClass cls body := by
  have hany : TypeId.any.index < r.size := Nat.lt_of_lt_of_le (by decide) hb.size
  have harray : TypeId.anyArray.index < r.size := Nat.lt_of_lt_of_le (by decide) hb.size
  cases hs with
  | @declare key parent cls r' registered free =>
    obtain ⟨-, rfl⟩ := register_eq_ok free
    refine .inr (.inl ⟨r.poisons, _, ?_, ?_, rfl⟩)
    · intro p hp
      cases parent with
      | none => exact Option.some.inj hp ▸ hany
      | some q => exact registered p hp
    · intro element hkind
      cases hkind
  | request q allowed =>
    rw [q.answer_eq, findOrInsert]
    cases r.find? (q.definition r).key with
    | some ty => exact .inl rfl
    | none =>
      refine .inr (.inl ⟨r.poisons, _, ?_, ?_, rfl⟩)
      · intro p hp
        cases q with
        | array element => exact Option.some.inj hp ▸ harray
        | function params result => exact Option.some.inj hp ▸ hany
        | placeholder owner name => exact Option.some.inj hp ▸ hany
      · intro element hkind
        cases q with
        | array element => rfl
        | function params result => cases hkind
        | placeholder owner name => cases hkind
  | poison =>
    rw [newPoison_apply]
    refine .inr (.inl ⟨r.poisons + 1, _, ?_, ?_, rfl⟩)
    · intro p hp
      cases hp
    · intro element hkind
      cases hkind
  | define declared registered admitted =>
    exact .inr (.inr ⟨_, _, declared, registered, admitted, rfl⟩)

/-- The parents after a class has been completed. -/
theorem parent_defineClass (hcls : cls.index < r.size) (body : ClassBody) (ty : TypeId) :
    (r.defineClass cls body).parent ty =
      if ty = cls then body.parent.or (r.parent cls) else r.parent ty := by
  simp only [Registry.parent, defineClass, modifyDef, definition, getD_modify]
  by_cases heq : ty = cls
  · subst heq
    rw [if_pos ⟨rfl, hcls⟩, if_pos rfl]
  · have hne : ¬ cls.index = ty.index := fun hi => heq (congrArg TypeId.mk hi.symm)
    rw [if_neg (fun hboth => hne hboth.1), if_neg heq]

/-- Completing a class changes no kind. -/
theorem kind_defineClass (cls : TypeId) (body : ClassBody) (ty : TypeId) :
    (r.defineClass cls body).kind ty = r.kind ty := by
  refine kind_modifyDef ?_ cls ty
  exact fun d => rfl

/-- Whatever a program does leaves a registry rooted. -/
theorem Rooted.step (h : r.Rooted) (hs : Assembly admits r r') : r'.Rooted := by
  rcases hs.inversion h.builtins with rfl | ⟨poisons, d, hparent, harray, rfl⟩ |
    ⟨cls, body, declared, registered, -, rfl⟩
  · exact h
  · have hcounted : ({ r with poisons } : Registry).Rooted :=
      ⟨h.parents, h.arrays, h.builtins.size, h.builtins.definition⟩
    exact hcounted.insert hparent harray
  · have hsize : (r.defineClass cls body).size = r.size := size_modifyDef _ _
    refine ⟨fun {ty parent} hp => ?_, fun {ty element} hkind hne => ?_,
      h.builtins.defineClass declared.declared body⟩
    · rw [hsize]
      rw [parent_defineClass declared.registered] at hp
      split at hp
      · -- The parent in the body counts before the one that has been declared.
        rcases Option.or_eq_some_iff.mp hp with hp | ⟨-, hp⟩
        · exact registered parent hp
        · exact h.parents hp
      · exact h.parents hp
    · rw [kind_defineClass] at hkind
      -- A class is no array type.
      have hcls : ty ≠ cls := by
        rintro rfl
        rw [declared.nominal] at hkind
        cases hkind
      rw [parent_defineClass declared.registered, if_neg hcls]
      exact h.arrays hkind hne

/-- Every registry that a program builds is rooted. -/
theorem Assembled.rooted (h : Assembled admits r) : r.Rooted := by
  induction h with
  | refl => exact .initial
  | tail _ hs ih => exact ih.step hs

/-! ## Which steps close a loop -/

/-- A definition may be added without closing a loop, since no type is below it yet. -/
theorem LoopFree.insert (h : r.LoopFree)
    (hparents : ∀ {ty parent : TypeId}, r.parent ty = some parent → parent.index < r.size)
    {d : TypeDef} (hparent : ∀ p ∈ d.parent, p.index < r.size) :
    (Registry.insert d r).2.LoopFree := by
  have hedge : ∀ {ty parent : TypeId}, (Registry.insert d r).2.parent ty = some parent →
      parent.index < r.size ∧ (ty.index < r.size → r.parent ty = some parent) := by
    intro ty parent hp
    rw [Registry.parent, definition_insert] at hp
    split at hp
    · exact ⟨hparent _ hp, fun hlt => by omega⟩
    · exact ⟨hparents hp, fun _ => hp⟩
  -- Ancestors are registered, and above a registered type nothing has changed.
  have hold : ∀ {ty a : TypeId}, (Registry.insert d r).2.Descends ty a →
      a.index < r.size ∧ (ty.index < r.size → r.Descends ty a) := by
    intro ty a hd
    induction hd with
    | single hp => exact ⟨(hedge hp).1, fun hlt => .single ((hedge hp).2 hlt)⟩
    | tail _ hp ih =>
      exact ⟨(hedge hp).1, fun hlt => (ih.2 hlt).tail ((hedge hp).2 ih.1)⟩
  intro ty hloop
  exact h ty ((hold hloop).2 (hold hloop).1)

/-- What is above a type after a class has been completed with a parent was above it before, or is
that parent or above it. -/
theorem descends_of_defineClass {body : ClassBody} {p a : TypeId} (hcls : cls.index < r.size)
    (hbody : body.parent = some p) (h : (r.defineClass cls body).Descends ty a) :
    r.Descends ty a ∨ ((ty = cls ∨ r.Descends ty cls) ∧ (a = p ∨ r.Descends p a)) := by
  -- The one new edge goes from the class to the parent.
  have hedge : ∀ {t q : TypeId}, (r.defineClass cls body).parent t = some q →
      (t = cls ∧ q = p) ∨ r.parent t = some q := by
    intro t q hq
    rw [parent_defineClass hcls, hbody, Option.some_or] at hq
    split at hq
    · exact .inl ⟨by assumption, (Option.some.inj hq).symm⟩
    · exact .inr hq
  induction h with
  | single hp =>
    rcases hedge hp with ⟨rfl, rfl⟩ | hp
    · exact .inr ⟨.inl rfl, .inl rfl⟩
    · exact .inl (.single hp)
  | tail _ hp ih =>
    rcases hedge hp with ⟨rfl, rfl⟩ | hp
    · refine .inr ⟨?_, .inl rfl⟩
      rcases ih with hd | ⟨hty, -⟩
      · exact .inr hd
      · exact hty
    · rcases ih with hd | ⟨hty, ha⟩
      · exact .inl (hd.tail hp)
      · refine .inr ⟨hty, .inr ?_⟩
        rcases ha with rfl | hd
        · exact .single hp
        · exact hd.tail hp

/-- Types below a class stay below it when it is completed. -/
theorem descends_defineClass {body : ClassBody} (hcls : cls.index < r.size)
    (h : r.Descends ty cls) : ty = cls ∨ (r.defineClass cls body).Descends ty cls := by
  have hedge : ∀ {t q : TypeId}, r.parent t = some q →
      t = cls ∨ (r.defineClass cls body).parent t = some q := by
    intro t q hq
    by_cases ht : t = cls
    · exact .inl ht
    · right
      rw [parent_defineClass hcls, if_neg ht]
      exact hq
  induction h using Relation.TransGen.head_induction_on with
  | single hp => exact (hedge hp).imp_right .single
  | head hp _ ih =>
    refine (hedge hp).imp_right fun hp => ?_
    rcases ih with rfl | hd
    · exact .single hp
    · exact .head hp hd

/-- A class that is completed with itself or a type below it for its parent is below itself. -/
theorem descends_self_of_not_admits {body : ClassBody} (hcls : cls.index < r.size)
    (h : ¬ r.Admits cls body) : (r.defineClass cls body).Descends cls cls := by
  simp only [Admits, Option.mem_def, not_forall] at h
  obtain ⟨p, hp, hnot⟩ := h
  have hparent : (r.defineClass cls body).parent cls = some p := by
    rw [parent_defineClass hcls, if_pos rfl, hp, Option.some_or]
  by_cases heq : p = cls
  · exact .single (heq ▸ hparent)
  · have hd : r.Descends p cls := not_not.mp fun hd => hnot ⟨heq, hd⟩
    exact .head hparent ((descends_defineClass hcls hd).resolve_left heq)

/-- A class that is completed with any other parent closes no loop. -/
theorem LoopFree.defineClass (h : r.LoopFree) {body : ClassBody} (hcls : cls.index < r.size)
    (hadmits : r.Admits cls body) : (r.defineClass cls body).LoopFree := by
  intro ty hloop
  cases hbody : body.parent with
  | none =>
    refine h ty (Relation.TransGen.mono (fun t q hq => ?_) _ _ hloop)
    rw [parent_defineClass hcls, hbody, Option.none_or] at hq
    split at hq
    · subst t
      exact hq
    · exact hq
  | some p =>
    obtain ⟨hne, hnot⟩ := hadmits p hbody
    rcases descends_of_defineClass hcls hbody hloop with hd | ⟨hbelow, habove⟩
    · exact h ty hd
    · rcases habove with rfl | hp <;> rcases hbelow with rfl | hty
      · exact hne rfl
      · exact hnot hty
      · exact hnot hp
      · exact hnot (hp.trans hty)

/-- There is no loop among the built-in types. -/
theorem loopFree_initial : initial.LoopFree := by
  intro ty hloop
  have hends : ∀ i < 7, initial.Line ⟨i⟩ (initial.lineage ⟨i⟩) := by
    have hany : initial.Line .any (initial.lineage .any) := .root (by decide +kernel)
    intro i hi
    match i, hi with
    | 0, _ => exact hany
    | 1, _ | 2, _ | 3, _ | 4, _ | 5, _ | 6, _ => exact .child (by decide +kernel) hany
  obtain ⟨parent, hp, -⟩ := Relation.TransGen.head'_iff.mp hloop
  exact line_iff.mp ⟨_, hends ty.index (lt_size_of_parent hp)⟩ ty (.inl rfl) hloop

/-- What a program does with admitted parents closes no loop. -/
theorem LoopFree.step (h : r.LoopFree) (hr : r.Rooted) (hs : Assembly Admits r r') :
    r'.LoopFree := by
  rcases hs.inversion hr.builtins with rfl | ⟨poisons, d, hparent, -, rfl⟩ |
    ⟨cls, body, declared, -, admitted, rfl⟩
  · exact h
  · have hcounted : ({ r with poisons } : Registry).LoopFree := h
    exact hcounted.insert hr.parents hparent
  · exact h.defineClass declared.registered admitted

/-- A registry whose classes were completed with admitted parents has no loops. -/
theorem Assembled.loopFree (h : Assembled Admits r) : r.LoopFree := by
  induction h with
  | refl => exact loopFree_initial
  | tail before hs ih => exact ih.step (Assembled.rooted before) hs

/-- **Hierarchies end.** As long as no class is completed with itself or a class below it for its
parent, no type is among its own ancestors, and the searches from every type end with what the
registry answers. Completing a class keeps it so with exactly these parents: any other closes a
loop, and the types from the class on have no end. -/
theorem hierarchies_end (h : Assembled Admits r) :
    r.LoopFree ∧ (∀ ty : TypeId, ty.index < r.size → r.WalksEnd ty) ∧
      ∀ (cls : TypeId) (body : ClassBody), r.Declared cls →
        (∀ p ∈ body.parent, p.index < r.size) →
        ((r.defineClass cls body).LoopFree ↔ r.Admits cls body) ∧
          ((∃ types, (r.defineClass cls body).Line cls types) ↔ r.Admits cls body) := by
  have hfree := h.loopFree
  refine ⟨hfree, fun ty _ => hfree.walksEnd ty, fun cls body declared _ => ?_⟩
  have hcls := declared.registered
  -- A parent that is not admitted is the class itself or below it.
  have hloop : ¬ r.Admits cls body → (r.defineClass cls body).Descends cls cls :=
    descends_self_of_not_admits hcls
  refine ⟨⟨fun hfree' => ?_, hfree.defineClass hcls⟩, ⟨fun hline => ?_, fun hadmits => ?_⟩⟩
  · exact not_not.mp fun hnot => hfree' cls (hloop hnot)
  · exact not_not.mp fun hnot => line_iff.mp hline cls (.inl rfl) (hloop hnot)
  · exact line_iff.mpr fun a _ => hfree.defineClass hcls hadmits a

/-! ## Two classes -/

/-- Two classes `A` and `B`, declared and not completed. -/
def twoClasses : Registry :=
  (insert (.plain "B" .nominal (some .any))
    (insert (.plain "A" .nominal (some .any)) initial).2).2

/-- The two classes are declared in a registry that a program builds. -/
theorem assembled_twoClasses : Assembled admits twoClasses := by
  have hnone : ∀ {r : Registry}, ∀ p ∈ (none : Option TypeId), p.index < r.size :=
    fun p hp => nomatch hp
  have hA : initial.declareClass "A" none = .ok (⟨7⟩, _) := rfl
  have hB : (insert (.plain "A" .nominal (some .any)) initial).2.declareClass "B" none =
      .ok (⟨8⟩, twoClasses) := rfl
  exact (Relation.ReflTransGen.refl.tail (.declare hnone hA)).tail (.declare hnone hB)

/-- Both classes may be completed. -/
theorem declared_twoClasses : twoClasses.Declared ⟨7⟩ ∧ twoClasses.Declared ⟨8⟩ :=
  ⟨⟨by decide +kernel, by decide, by decide +kernel⟩,
    ⟨by decide +kernel, by decide, by decide +kernel⟩⟩

/-- `B` extends `A`. -/
def extendingClasses : Registry := twoClasses.defineClass ⟨8⟩ { parent := some ⟨7⟩ }

/-- `B` may be completed with the parent `A`. -/
theorem admits_twoClasses : twoClasses.Admits ⟨8⟩ { parent := some ⟨7⟩ } := by
  intro p hp
  obtain rfl := Option.some.inj hp
  refine ⟨by decide, fun hd => ?_⟩
  have hA : twoClasses.parent ⟨7⟩ = some .any := by decide +kernel
  have hany : twoClasses.parent .any = none := by decide +kernel
  -- Above `A` there is `any` alone.
  rcases Relation.TransGen.head'_iff.mp hd with ⟨t, ht, hrest⟩
  obtain rfl := Option.some.inj (hA.symm.trans ht)
  rcases Relation.ReflTransGen.cases_head hrest with heq | ⟨u, hu, -⟩
  · exact absurd heq (by decide)
  · exact absurd (hany.symm.trans hu) (by simp)

/-- With `B` below `A`, the searches from `B` end, and `A` may not be completed with the parent
`B`. -/
theorem hierarchies_end_two :
    Assembled Admits extendingClasses ∧ extendingClasses.LoopFree ∧
      extendingClasses.WalksEnd ⟨8⟩ ∧ extendingClasses.isSubclass ⟨8⟩ ⟨7⟩ = true ∧
      ¬ ∃ types, (extendingClasses.defineClass ⟨7⟩ { parent := some ⟨8⟩ }).Line ⟨7⟩ types := by
  have hassembled : Assembled Admits extendingClasses :=
    assembled_twoClasses.tail (.define declared_twoClasses.2
      (fun p hp => Option.some.inj hp ▸ by decide +kernel) admits_twoClasses)
  obtain ⟨hfree, hwalks, hdefine⟩ := hierarchies_end hassembled
  have hdeclared : extendingClasses.Declared ⟨7⟩ :=
    ⟨by decide +kernel, by decide, by decide +kernel⟩
  have hline := (hdefine ⟨7⟩ { parent := some ⟨8⟩ } hdeclared fun p hp =>
    Option.some.inj hp ▸ by decide +kernel).2
  refine ⟨hassembled, hfree, hwalks ⟨8⟩ (by decide +kernel), by decide +kernel, fun hends => ?_⟩
  exact (hline.mp hends ⟨8⟩ rfl).2 (.single (by decide +kernel))

/-- `A` extends `B`, and `B` extends `A`. -/
def loopingClasses : Registry :=
  (twoClasses.defineClass ⟨7⟩ { parent := some ⟨8⟩ }).defineClass ⟨8⟩ { parent := some ⟨7⟩ }

/-- Two classes can be completed with each other as parents. Each then is its own proper ancestor
and a subclass of the other, the types from `A` on have no end, and neither has a search for a
property that no class declares. -/
theorem loop_of_two_classes :
    Assembled (fun _ _ _ => True) loopingClasses ∧ loopingClasses.Descends ⟨7⟩ ⟨7⟩ ∧
      loopingClasses.isSubclass ⟨7⟩ ⟨8⟩ = true ∧ loopingClasses.isSubclass ⟨8⟩ ⟨7⟩ = true ∧
      (¬ ∃ types, loopingClasses.Line ⟨7⟩ types) ∧
      ∀ answer, ¬ loopingClasses.Search
        (fun t => ((loopingClasses.definition t).property? "x").map (t, ·)) ⟨7⟩ answer := by
  have hloop : loopingClasses.Descends ⟨7⟩ ⟨7⟩ :=
    .head (show loopingClasses.parent ⟨7⟩ = some ⟨8⟩ by decide +kernel)
      (.single (show loopingClasses.parent ⟨8⟩ = some ⟨7⟩ by decide +kernel))
  have hendless : ¬ ∃ types, loopingClasses.Line ⟨7⟩ types :=
    fun hline => line_iff.mp hline ⟨7⟩ (.inl rfl) hloop
  have hassembled : Assembled (fun _ _ _ => True) loopingClasses := by
    refine (assembled_twoClasses.tail (.define declared_twoClasses.1 ?_ trivial)).tail
      (.define ⟨by decide +kernel, by decide, by decide +kernel⟩ ?_ trivial)
    all_goals
      intro p hp
      obtain rfl := Option.some.inj hp
      decide +kernel
  refine ⟨hassembled, hloop, by decide +kernel, by decide +kernel, hendless, fun answer h => ?_⟩
  cases answer with
  | none => exact hendless h.exists_line
  | some found =>
    obtain ⟨t, ht⟩ := h.exists_of_some
    obtain ⟨i⟩ := t
    -- None of the nine types declares such a property, and there are no others.
    by_cases hlt : i < 9
    · have hall : ∀ i < 9, ((loopingClasses.definition ⟨i⟩).property? "x").isNone := by
        decide +kernel
      rw [Option.isNone_iff_eq_none.mp (hall i hlt)] at ht
      cases ht
    · have hsize : loopingClasses.size = 9 := by decide +kernel
      have hdefault : loopingClasses.definition ⟨i⟩ = default :=
        definition_of_le (by rw [hsize]; exact Nat.le_of_not_lt hlt)
      rw [hdefault] at ht
      cases ht

end ObjectGraph.Registry
