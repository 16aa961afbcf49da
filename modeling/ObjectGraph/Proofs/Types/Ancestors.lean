import Mathlib.Data.List.Chain
import ObjectGraph.Proofs.Types.Hierarchy

/-!
# Ancestors and nearest declarations

Where no type is among its own ancestors, the ancestors of a type are a chain from a root down to
the type (`Registry.Descent`), and those of a superclass are the beginning of it
(`Registry.LoopFree.ancestors_prefix`). So being a subclass is a partial order. A member is looked up
from the near end: what is found is declared by the last of the ancestors that declares it
(`Registry.LastDeclaring`), and in a subclass, whose ancestors are more of the same, it is found as
near or nearer (`Registry.LastDeclaring.append`).
-/

namespace ObjectGraph.Registry

variable {r : Registry} {ty s t : TypeId} {types : List TypeId} {α : Type}

/-- The types are a chain from a type without a parent down to `ty`, each the parent of the next. -/
structure Descent (r : Registry) (types : List TypeId) (ty : TypeId) : Prop where
  /-- No type is in the chain twice. -/
  nodup : types.Nodup
  /-- It begins with a type without a parent. -/
  root : ∃ root, types.head? = some root ∧ r.parent root = none
  /-- It ends with the type. -/
  last : types.getLast? = some ty
  /-- It goes from parents to children. -/
  chain : types.IsChain fun parent child => r.parent child = some parent

/-- `owner` is the last of the types that has something of its own, which is `a`. -/
def LastDeclaring (own : TypeId → Option α) (types : List TypeId) (owner : TypeId) (a : α) : Prop :=
  own owner = some a ∧
    ∃ before after, types = before ++ owner :: after ∧ ∀ t ∈ after, own t = none

/-! ## The chain of ancestors -/

/-- A line goes from children to parents. -/
theorem Line.isChain (h : r.Line ty types) :
    types.IsChain fun child parent => r.parent child = some parent := by
  induction h with
  | root hp => exact .singleton _
  | child hp next ih =>
    cases next with
    | root _ => exact .cons_cons hp (.singleton _)
    | child _ _ => exact .cons_cons hp ih

/-- A line begins with its type. -/
theorem Line.head? (h : r.Line ty types) : types.head? = some ty := by
  cases h <;> rfl

/-- A line ends with a type without a parent. -/
theorem Line.getLast? (h : r.Line ty types) :
    ∃ root, types.getLast? = some root ∧ r.parent root = none := by
  induction h with
  | @root ty hp => exact ⟨ty, rfl, hp⟩
  | @child ty parent rest hp next ih =>
    obtain ⟨root, hroot, hnone⟩ := ih
    refine ⟨root, ?_, hnone⟩
    rw [List.getLast?_cons, hroot, Option.getD_some]

/-- What is from a type of a line on is the line of that type. -/
theorem Line.exists_append (h : r.Line s types) (ht : t ∈ types) :
    ∃ below rest, types = below ++ rest ∧ r.Line t rest := by
  induction h with
  | root hp =>
    obtain rfl := List.mem_singleton.mp ht
    exact ⟨[], _, rfl, .root hp⟩
  | @child s parent rest hp next ih =>
    rcases List.mem_cons.mp ht with rfl | ht
    · exact ⟨[], _, rfl, .child hp next⟩
    · obtain ⟨below, rest', rfl, hline⟩ := ih ht
      exact ⟨s :: below, rest', rfl, hline⟩

section LoopFree

variable (h : r.LoopFree)

include h

/-- Without loops the ancestors of a type are a chain down to it. -/
theorem LoopFree.descent (ty : TypeId) : r.Descent (r.ancestors ty) ty := by
  have hline : r.Line ty (r.lineage ty) := line_lineage fun a _ => h a
  unfold ancestors
  constructor
  · exact List.nodup_reverse.mpr (h.nodup_lineage ty)
  · rw [List.head?_reverse]
    exact hline.getLast?
  · rw [List.getLast?_reverse]
    exact hline.head?
  · rw [List.isChain_reverse]
    exact hline.isChain

/-- Without loops the ancestors of a superclass are the beginning of those of a subclass. -/
theorem LoopFree.ancestors_prefix (hst : r.isSubclass s t = true) :
    r.ancestors t <+: r.ancestors s := by
  have hline (ty : TypeId) : r.Line ty (r.lineage ty) := line_lineage fun a _ => h a
  rw [isSubclass, List.contains_iff_mem] at hst
  obtain ⟨below, rest, heq, hrest⟩ := (hline s).exists_append hst
  obtain rfl : rest = r.lineage t := hrest.unique (hline t)
  unfold ancestors
  rw [heq, List.reverse_append]
  exact List.prefix_append _ _

/-- Without loops being a subclass is a partial order. -/
theorem LoopFree.isPartialOrder_isSubclass :
    IsPartialOrder TypeId fun s t => r.isSubclass s t = true where
  refl _ := h.isSubclass_iff.mpr (.inl rfl)
  trans _ _ _ hst htu := h.isSubclass_trans hst htu
  antisymm _ _ hst hts := h.isSubclass_antisymm hst hts

end LoopFree

/-! ## The nearest declaration -/

/-- The search from the near end finds the last ancestor that declares something. What the search
makes of it tells the type and what it declares. -/
theorem findSome?_lineage_eq_some_iff {β : Type} {own : TypeId → Option α}
    {make : TypeId → α → β}
    (hmake : ∀ t a t' a', make t a = make t' a' → t = t' ∧ a = a') {owner : TypeId} {a : α} :
    ((r.lineage ty).findSome? fun t => (own t).map (make t)) = some (make owner a) ↔
      LastDeclaring own (r.ancestors ty) owner a := by
  rw [List.findSome?_eq_some_iff]
  unfold LastDeclaring ancestors
  constructor
  · rintro ⟨nearer, t, farther, heq, hfound, hnearer⟩
    obtain ⟨a', ha', hmade⟩ := Option.map_eq_some_iff.mp hfound
    obtain ⟨rfl, rfl⟩ := hmake _ _ _ _ hmade
    refine ⟨ha', farther.reverse, nearer.reverse, by simp [heq], fun u hu => ?_⟩
    exact Option.map_eq_none_iff.mp (hnearer u (List.mem_reverse.mp hu))
  · rintro ⟨hown, before, after, heq, hafter⟩
    refine ⟨after.reverse, owner, before.reverse, ?_, ?_, fun u hu => ?_⟩
    · calc r.lineage ty = (r.lineage ty).reverse.reverse := (List.reverse_reverse _).symm
        _ = (before ++ owner :: after).reverse := by rw [heq]
        _ = after.reverse ++ owner :: before.reverse := by simp
    · rw [hown, Option.map_some]
    · rw [hafter u (List.mem_reverse.mp hu), Option.map_none]

/-- Properties are found at the last ancestor that declares one of the name. -/
theorem findProperty_eq_some_iff {name : String} {owner : TypeId} {p : Property} :
    r.findProperty ty name = some (owner, p) ↔
      LastDeclaring (fun t => (r.definition t).property? name) (r.ancestors ty) owner p :=
  findSome?_lineage_eq_some_iff fun _ _ _ _ => Prod.mk.inj

/-- Methods are found at the last ancestor that declares one of the name. -/
theorem findMethod_eq_some_iff {name : String} {m : MethodRef} :
    r.findMethod ty name = some m ↔
      LastDeclaring (fun t => (r.definition t).methodIndex? name) (r.ancestors ty) m.owner
        m.index :=
  findSome?_lineage_eq_some_iff fun _ _ _ _ => MethodRef.mk.inj

/-- What declares something for a type is among the types. -/
theorem LastDeclaring.mem {own : TypeId → Option α} {owner : TypeId} {a : α}
    (h : LastDeclaring own types owner a) : owner ∈ types := by
  obtain ⟨-, before, after, rfl, -⟩ := h
  exact List.mem_append_right _ List.mem_cons_self

/-- Where types are added at the end, what is declared last is declared by the same type as before or
by an added one. -/
theorem LastDeclaring.append {own : TypeId → Option α} {owner : TypeId} {a : α}
    (h : LastDeclaring own types owner a) (below : List TypeId) :
    ∃ owner' a', LastDeclaring own (types ++ below) owner' a' ∧
      (owner' = owner ∨ owner' ∈ below) := by
  induction below generalizing types owner a with
  | nil =>
    rw [List.append_nil]
    exact ⟨owner, a, h, .inl rfl⟩
  | cons t below ih =>
    rw [List.append_cons]
    cases ht : own t with
    | none =>
      obtain ⟨hown, before, after, rfl, hafter⟩ := h
      have hlast : LastDeclaring own (before ++ owner :: after ++ [t]) owner a := by
        refine ⟨hown, before, after ++ [t], by simp, fun u hu => ?_⟩
        rcases List.mem_append.mp hu with hu | hu
        · exact hafter u hu
        · rw [List.mem_singleton.mp hu, ht]
      obtain ⟨owner', a', hlast', hwhere⟩ := ih hlast
      exact ⟨owner', a', hlast', hwhere.imp_right (List.mem_cons_of_mem t)⟩
    | some b =>
      have hlast : LastDeclaring own (types ++ [t]) t b := ⟨ht, types, [], rfl, nofun⟩
      obtain ⟨owner', a', hlast', hwhere⟩ := ih hlast
      exact ⟨owner', a', hlast', .inr (List.mem_cons.mpr hwhere)⟩

/-- Of two ancestors the later one descends from the earlier one. -/
theorem pairwise_ancestors (r : Registry) (ty : TypeId) :
    (r.ancestors ty).Pairwise fun earlier later => r.Descends later earlier :=
  List.pairwise_reverse.mpr (pairwise_ancestorsWithin r.size ty)

/-- **What a type has, a subclass has too**, from the same type or from one below it. -/
theorem LoopFree.exists_lastDeclaring (h : r.LoopFree) (hst : r.isSubclass s t = true)
    {own : TypeId → Option α} {owner : TypeId} {a : α}
    (ht : LastDeclaring own (r.ancestors t) owner a) :
    ∃ owner' a', LastDeclaring own (r.ancestors s) owner' a' ∧
      r.isSubclass owner' owner = true := by
  have hpairwise := r.pairwise_ancestors s
  obtain ⟨below, heq⟩ := h.ancestors_prefix hst
  obtain ⟨owner', a', hlast, hwhere⟩ := ht.append below
  rw [heq] at hlast
  refine ⟨owner', a', hlast, h.isSubclass_iff.mpr ?_⟩
  rcases hwhere with rfl | hbelow
  · exact .inl rfl
  · -- The added types come after the superclass's ancestors, and descend from them.
    rw [← heq] at hpairwise
    exact .inr ((List.pairwise_append.mp hpairwise).2.2 owner ht.mem owner' hbelow)

/-- **Ancestors, subclasses and look-ups agree.** Where no type is among its own ancestors, the
searches along the parents of a type end with the registry's answers, the ancestors of a type are a
chain from a root down to it, and the superclasses of a type are its ancestors, which makes being a
subclass a partial order. A member is found at the last ancestor that declares it, and where a type
has a member, its subclasses have it from the same declaration or one nearer to them. -/
theorem ancestors_agree (h : r.LoopFree) :
    (∀ s, r.WalksEnd s ∧ r.Descent (r.ancestors s) s) ∧
    (∀ s t, r.isSubclass s t = true ↔ t ∈ r.ancestors s) ∧
    IsPartialOrder TypeId (fun s t => r.isSubclass s t = true) ∧
    (∀ s name owner p, r.findProperty s name = some (owner, p) ↔
      LastDeclaring (fun t => (r.definition t).property? name) (r.ancestors s) owner p) ∧
    (∀ s name m, r.findMethod s name = some m ↔
      LastDeclaring (fun t => (r.definition t).methodIndex? name) (r.ancestors s) m.owner
        m.index) ∧
    ∀ s t name, r.isSubclass s t = true →
      (∀ owner p, r.findProperty t name = some (owner, p) → ∃ owner' p',
        r.findProperty s name = some (owner', p') ∧ r.isSubclass owner' owner = true) ∧
      ∀ m, r.findMethod t name = some m → ∃ m',
        r.findMethod s name = some m' ∧ r.isSubclass m'.owner m.owner = true := by
  refine ⟨fun s => ⟨h.walksEnd s, h.descent s⟩, fun s t => ?_, h.isPartialOrder_isSubclass,
    fun s name owner p => findProperty_eq_some_iff, fun s name m => findMethod_eq_some_iff,
    fun s t name hst => ⟨fun owner p hp => ?_, fun m hm => ?_⟩⟩
  · rw [isSubclass, List.contains_iff_mem, ancestors, List.mem_reverse]
  · obtain ⟨owner', p', hfound, hbelow⟩ :=
      h.exists_lastDeclaring hst (findProperty_eq_some_iff.mp hp)
    exact ⟨owner', p', findProperty_eq_some_iff.mpr hfound, hbelow⟩
  · obtain ⟨owner', index', hfound, hbelow⟩ :=
      h.exists_lastDeclaring hst (findMethod_eq_some_iff.mp hm)
    exact ⟨⟨owner', index'⟩, findMethod_eq_some_iff.mpr hfound, hbelow⟩

/-- `A` has a property and a method, `B` extends `A` and declares the property again, and `C` extends
`B` and declares the method again. -/
def threeClasses : Registry :=
  let declared := (insert (.plain "C" .nominal (some ⟨8⟩)) twoClasses).2
  let method (cls : TypeId) : Method :=
    { name := "m", params := [], generics := [], result := .int, body := none, declaring := cls }
  ((declared.defineClass ⟨7⟩
      { properties := [⟨"x", .visible, .int, none⟩, ⟨"y", .visible, .int, none⟩]
        methods := [method ⟨7⟩] }).defineClass ⟨8⟩
      { parent := some ⟨7⟩
        properties := [⟨"x", .visible, .string, none⟩] }).defineClass ⟨9⟩
      { methods := [method ⟨9⟩] }

/-- Of the ancestors of `C`, the last to declare the one property is `B`, the last to declare the
other is `A`, and the method is its own. -/
theorem ancestors_agree_threeClasses :
    threeClasses.LoopFree ∧ threeClasses.ancestors ⟨9⟩ = [.any, ⟨7⟩, ⟨8⟩, ⟨9⟩] ∧
      threeClasses.Descent [.any, ⟨7⟩, ⟨8⟩, ⟨9⟩] ⟨9⟩ ∧
      threeClasses.isSubclass ⟨9⟩ ⟨7⟩ = true ∧ ¬ threeClasses.isSubclass ⟨7⟩ ⟨9⟩ = true ∧
      LastDeclaring (fun t => (threeClasses.definition t).property? "x")
        [.any, ⟨7⟩, ⟨8⟩, ⟨9⟩] ⟨8⟩ ⟨"x", .visible, .string, none⟩ ∧
      LastDeclaring (fun t => (threeClasses.definition t).property? "y")
        [.any, ⟨7⟩, ⟨8⟩, ⟨9⟩] ⟨7⟩ ⟨"y", .visible, .int, none⟩ ∧
      LastDeclaring (fun t => (threeClasses.definition t).methodIndex? "m")
        [.any, ⟨7⟩, ⟨8⟩, ⟨9⟩] ⟨9⟩ 0 ∧
      ∃ owner p, threeClasses.findProperty ⟨9⟩ "x" = some (owner, p) ∧
        threeClasses.isSubclass owner ⟨7⟩ = true := by
  have hfree : threeClasses.LoopFree := loopFree_of_lt (by decide +kernel)
  obtain ⟨hdescent, hsubclass, hpartial, hproperty, hmethod, hinherited⟩ := ancestors_agree hfree
  have hancestors : threeClasses.ancestors ⟨9⟩ = [.any, ⟨7⟩, ⟨8⟩, ⟨9⟩] := by decide +kernel
  have hbelow : threeClasses.isSubclass ⟨9⟩ ⟨7⟩ = true := by
    rw [hsubclass, hancestors]
    decide
  rw [← hancestors]
  refine ⟨hfree, rfl, (hdescent ⟨9⟩).2, hbelow, fun habove => ?_, (hproperty _ _ _ _).mp rfl,
    (hproperty _ _ _ _).mp rfl, (hmethod _ _ ⟨⟨9⟩, 0⟩).mp rfl,
    (hinherited ⟨9⟩ ⟨7⟩ "x" hbelow).1 ⟨7⟩ _ rfl⟩
  exact absurd (hpartial.antisymm _ _ hbelow habove) (by decide)

end ObjectGraph.Registry
