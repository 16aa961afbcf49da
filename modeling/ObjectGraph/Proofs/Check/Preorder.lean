import ObjectGraph.Proofs.Check.Recovery
import ObjectGraph.Proofs.Types.Hierarchy

/-!
# Assignability is a preorder

Assignability mixes three relations: arrays by element and functions part by part, subclassing for
the rest, and `any` above all. They meet at few places, since a type that is no class has few types
above it: for an array type the type of arrays of anything, and `any` for all (`Tiered.above`).
So a chain of two comparisons is of one and the same kind throughout, or it ends at one of these
types. That gives transitivity by induction over the shape of the first comparison
(`Tiered.fits_trans`).

Poison has to be kept from the middle of a chain, because it goes with everything on both sides.

The parents of classes are up to the program. Where no class has an array, a function or a
placeholder for its parent and no class is below itself, the types of a registry are tiered
(`Populated.tiered`), and assignability is a preorder on them that subclassing is a part of
(`assignable_preorder`).
-/

namespace ObjectGraph

/-- The parent that a type of the given kind is made with. Classes choose theirs. -/
def TypeKind.parent : TypeKind → Option TypeId
  | .array _ => some .anyArray
  | .function _ _ | .placeholder => some .any
  | .nominal | .poison => none

namespace Registry

variable {r r' : Registry} {s t u : TypeId}

/-! ## Which registries -/

/-- What populates a registry: classes are registered and completed, with registered types for
parents, and all other types are made on request. -/
inductive Populates (r : Registry) : Registry → Prop
  /-- A class is registered, with or without a parent. -/
  | register {d : TypeDef} {ty : TypeId} {r' : Registry} (nominal : d.kind = .nominal)
      (parent : ∀ p ∈ d.parent, p.index < r.size) (free : r.register d = .ok (ty, r')) :
      Populates r r'
  /-- An array type, a function type or a placeholder is asked for. -/
  | request (q : Request) (allowed : q.Allowed .free r) : Populates r (q.answer r).2
  /-- A poison type is made. -/
  | poison : Populates r (newPoison r).2
  /-- A declared class is completed. -/
  | define {cls : TypeId} {body : ClassBody} (declared : r.Declared cls)
      (parent : ∀ p ∈ body.parent, p.index < r.size) : Populates r (r.defineClass cls body)

/-- The registry is populated from the initial one. -/
abbrev Populated (r : Registry) : Prop := Relation.ReflTransGen Populates initial r

/-- The parents of classes are classes. -/
def ClassesExtendClasses (r : Registry) : Prop :=
  ∀ {cls parent : TypeId}, r.kind cls = .nominal → r.parent cls = some parent →
    r.kind parent = .nominal

/-- Every type that is no class has the parent that comes with its kind. The type of arrays of
anything is an array type itself, and is below `any`. -/
structure KeepsParents (r : Registry) : Prop extends r.HasBuiltins where
  /-- The parent comes with the kind. -/
  parent : ∀ {ty : TypeId}, r.kind ty ≠ .nominal → ty ≠ .anyArray →
    r.parent ty = (r.kind ty).parent

/-- What populates a registry is among the steps of registries. -/
theorem Populates.step (h : Populates r r') : Step .free r r' := by
  cases h with
  | register nominal parent free => exact .register nominal trivial free
  | request q allowed => exact .request q allowed
  | poison => exact .poison
  | define declared parent => exact .complete _ _ (fun _ => rfl) fun _ => rfl

/-- A populated registry is one that arises. -/
theorem Populated.reachable (h : Populated r) : Reachable .free r :=
  Relation.ReflTransGen.mono (fun _ _ => Populates.step) _ _ h

namespace KeepsParents

/-- The type of arrays of anything is built in. -/
theorem kind_anyArray (h : r.KeepsParents) : r.kind .anyArray = .array .any :=
  congrArg TypeDef.kind (h.definition rfl)

/-- `any` is built in. -/
theorem kind_any (h : r.KeepsParents) : r.kind .any = .nominal :=
  congrArg TypeDef.kind (h.definition rfl)

/-- The built-in types keep their parents. -/
theorem initial : Registry.initial.KeepsParents := by
  refine ⟨hasBuiltins_initial, fun {ty} hkind hne => ?_⟩
  by_cases hlt : ty.index < 7
  · -- All but the last of them are classes.
    have hall : ∀ i < 6, Registry.initial.kind ⟨i⟩ = .nominal := by decide +kernel
    have hsix : ty.index ≠ 6 := fun heq => hne (congrArg TypeId.mk heq)
    exact absurd (hall ty.index (by omega)) hkind
  · rw [kind, definition_of_le (Nat.le_of_not_lt hlt)] at hkind
    exact absurd rfl hkind

/-- A definition may be added if it is one of a class or has the parent that comes with its
kind. -/
theorem insert (h : r.KeepsParents) {d : TypeDef}
    (hparent : d.kind ≠ .nominal → d.parent = d.kind.parent) :
    (Registry.insert d r).2.KeepsParents := by
  refine ⟨h.toHasBuiltins.extend (.insert d), fun {ty} hkind hne => ?_⟩
  unfold Registry.kind Registry.parent at *
  rw [definition_insert] at hkind ⊢
  split
  · rw [if_pos (by assumption)] at hkind
    exact hparent hkind
  · rw [if_neg (by assumption)] at hkind
    exact h.parent hkind hne

/-- Whatever populates a registry keeps the parents that come with kinds. -/
theorem step (h : r.KeepsParents) (hs : Populates r r') : r'.KeepsParents := by
  cases hs with
  | register nominal parent free =>
    obtain ⟨-, rfl⟩ := register_eq_ok free
    exact h.insert fun hkind => absurd nominal hkind
  | request q allowed =>
    rw [q.answer_eq, findOrInsert]
    cases r.find? (q.definition r).key with
    | some ty => exact h
    | none =>
      refine h.insert fun _ => ?_
      cases q <;> rfl
  | poison =>
    rw [newPoison_apply]
    have hcounted : ({ r with poisons := r.poisons + 1 } : Registry).KeepsParents :=
      ⟨⟨h.size, h.definition⟩, h.parent⟩
    exact hcounted.insert fun _ => rfl
  | @define cls body declared parent =>
    refine ⟨h.toHasBuiltins.defineClass declared.declared body, fun {ty} hkind hne => ?_⟩
    rw [kind_defineClass] at hkind ⊢
    -- Only a class has been changed.
    have hcls : ty ≠ cls := by
      rintro rfl
      exact hkind declared.nominal
    rw [parent_defineClass declared.registered, if_neg hcls]
    exact h.parent hkind hne

end KeepsParents

/-- A populated registry keeps the parents that come with kinds. -/
theorem Populated.keepsParents (h : Populated r) : r.KeepsParents := by
  induction h with
  | refl => exact .initial
  | tail _ hs ih => exact ih.step hs

/-! ## What is above a type -/

/-- A registry whose classes form hierarchies of their own, below `any` or beside it. -/
structure Tiered (r : Registry) : Prop extends r.Coherent, r.KeepsParents where
  /-- No type is among its own ancestors. -/
  loopFree : r.LoopFree
  /-- Classes are below classes. -/
  classes : r.ClassesExtendClasses

/-- A populated registry is tiered if its classes have classes for parents and no class is below
itself. -/
theorem Populated.tiered (h : Populated r) (hfree : r.LoopFree)
    (hclasses : r.ClassesExtendClasses) : r.Tiered where
  toCoherent := Reachable.coherent h.reachable
  toKeepsParents := h.keepsParents
  loopFree := hfree
  classes := hclasses

/-- Two types of one form fit: arrays by element, functions part by part, or a class below
another. -/
inductive Fitting (r : Registry) (s t : TypeId) : Prop
  | arrays {e e' : TypeId} (hs : r.kind s = .array e) (ht : r.kind t = .array e')
      (h : r.Fits (fun _ => none) e e')
  | functions {ps ps' : List TypeId} {q q' : TypeId} (hs : r.kind s = .function ps q)
      (ht : r.kind t = .function ps' q') (length : ps.length = ps'.length)
      (params : ∀ pair ∈ ps.zip ps', r.Fits (fun _ => none) pair.1 pair.2)
      (result : r.Fits (fun _ => none) q q')
  | classes (hs : r.kind s = .nominal) (h : r.isSubclass s t = true)

namespace Tiered

variable (h : r.Tiered)
include h

/-- Nothing is above `any`. -/
theorem eq_any (hsub : r.isSubclass .any t = true) : t = .any := by
  have hroot : r.parent .any = none := h.toHasBuiltins.definition_any.1
  rcases h.loopFree.isSubclass_iff.mp hsub with rfl | hd
  · rfl
  · obtain ⟨p, hp, -⟩ := Relation.TransGen.head'_iff.mp hd
    rw [hroot] at hp
    cases hp

/-- A type is a subclass of itself and of what its parent is a subclass of. -/
theorem subclass_cases (hsub : r.isSubclass s t = true) :
    t = s ∨ ∃ p, r.parent s = some p ∧ r.isSubclass p t = true := by
  rcases h.loopFree.isSubclass_iff.mp hsub with rfl | hd
  · exact .inl rfl
  · obtain ⟨p, hp, hrest⟩ := Relation.TransGen.head'_iff.mp hd
    refine .inr ⟨p, hp, h.loopFree.isSubclass_iff.mpr ?_⟩
    exact (Relation.reflTransGen_iff_eq_or_transGen.mp hrest).imp_left fun heq => heq

/-- Above a class there are classes. -/
theorem nominal_above (hs : r.kind s = .nominal) (hsub : r.isSubclass s t = true) :
    r.kind t = .nominal := by
  rcases h.loopFree.isSubclass_iff.mp hsub with rfl | hd
  · exact hs
  · induction hd with
    | single hp => exact h.classes hs hp
    | tail hd hp ih => exact h.classes (ih (h.loopFree.isSubclass_iff.mpr (.inr hd))) hp

/-- Above the type of arrays of anything there is `any`. -/
theorem above_anyArray (hsub : r.isSubclass .anyArray t = true) : t = .anyArray ∨ t = .any := by
  have hparent : r.parent .anyArray = some .any := congrArg TypeDef.parent (h.definition rfl)
  rcases h.subclass_cases hsub with heq | ⟨p, hp, hrest⟩
  · exact .inl heq
  · rw [hparent] at hp
    obtain rfl := Option.some.inj hp
    exact .inr (h.eq_any hrest)

/-- Above a type that is no class there is the type itself, `any`, and for an array type the type
of arrays of anything. -/
theorem above (hs : r.kind s ≠ .nominal) (hsub : r.isSubclass s t = true) :
    t = s ∨ t = .any ∨ t = .anyArray ∧ ∃ e, r.kind s = .array e := by
  by_cases hne : s = .anyArray
  · subst hne
    exact (h.above_anyArray hsub).imp_right .inl
  · rcases h.subclass_cases hsub with heq | ⟨p, hp, hrest⟩
    · exact .inl heq
    · right
      rw [h.parent hs hne] at hp
      cases hk : r.kind s with
      | array e =>
        rw [hk] at hp
        obtain rfl := Option.some.inj hp
        rcases h.above_anyArray hrest with rfl | rfl
        · exact .inr ⟨rfl, e, rfl⟩
        · exact .inl rfl
      | function ps q =>
        rw [hk] at hp
        obtain rfl := Option.some.inj hp
        exact .inl (h.eq_any hrest)
      | placeholder =>
        rw [hk] at hp
        obtain rfl := Option.some.inj hp
        exact .inl (h.eq_any hrest)
      | nominal => exact absurd hk hs
      | poison =>
        rw [hk] at hp
        cases hp

/-- A structural type is above itself, and the type of arrays of anything is above array types.
It is above nothing else. -/
theorem below_parts (ht : (r.kind t).parts ≠ []) (hsub : r.isSubclass s t = true) :
    t = s ∨ t = .anyArray ∧ ∃ e, r.kind s = .array e := by
  have hnominal : r.kind t ≠ .nominal := by
    intro hk
    rw [hk] at ht
    exact ht rfl
  have hs : r.kind s ≠ .nominal := fun hk => hnominal (h.nominal_above hk hsub)
  rcases h.above hs hsub with heq | rfl | hanyArray
  · exact .inl heq
  · exact absurd h.kind_any hnominal
  · exact .inr hanyArray

/-! ## The preorder -/

/-- A subclass fits. -/
theorem fits_of_isSubclass (hsub : r.isSubclass s t = true) : r.Fits (fun _ => none) s t := by
  by_cases hform : r.SameForm s t
  · -- Two arrays, or two functions.
    have ht : (r.kind t).parts ≠ [] := by
      intro hnone
      unfold SameForm at hform
      split at hform
      · rename_i hk
        rw [hk] at hnone
        cases hnone
      · rename_i hk
        rw [hk] at hnone
        cases hnone
      · exact hform
    rcases h.below_parts ht hsub with rfl | ⟨rfl, e, hs⟩
    · exact .refl
    · exact .array hs h.kind_anyArray .any
  · exact .subclass hform hsub

/-- What fitting comes to for a type that is no poison: what it fits is the type itself, poison or
`any`, or is of the same form. -/
theorem fits_cases (hs : r.isPoison s = false) (hfits : r.Fits (fun _ => none) s t) :
    (t = s ∨ r.isPoison t = true ∨ t = .any) ∨ r.Fitting s t := by
  cases hfits with
  | refl => exact .inl (.inl rfl)
  | poison hpoison =>
    rw [hs] at hpoison
    exact .inl (.inr (.inl (hpoison.resolve_left Bool.false_ne_true)))
  | any => exact .inl (.inr (.inr rfl))
  | bound hbound => cases hbound
  | array hks hkt hfits => exact .inr (.arrays hks hkt hfits)
  | function hks hkt length params result =>
    exact .inr (.functions hks hkt length params result)
  | subclass _ hsub =>
    by_cases hk : r.kind s = .nominal
    · exact .inr (.classes hk hsub)
    · rcases h.above hk hsub with heq | hany | ⟨rfl, e, hks⟩
      · exact .inl (.inl heq)
      · exact .inl (.inr (.inr hany))
      · exact .inr (.arrays hks h.kind_anyArray .any)

/-- `any` is of the form of nothing else. -/
theorem eq_any_of_fitting (hfits : r.Fitting .any t) : t = .any := by
  cases hfits with
  | arrays hs | functions hs =>
    rw [h.kind_any] at hs
    cases hs
  | classes _ hsub => exact h.eq_any hsub

/-- Two comparisons of types of one form follow one another if those of the parts do. -/
theorem fitting_trans
    (hparts : ∀ p ∈ (r.kind t).parts, ∀ {s u}, r.Fits (fun _ => none) s p →
      r.Fits (fun _ => none) p u → r.Fits (fun _ => none) s u)
    (hst : r.Fitting s t) (htu : r.Fitting t u) : r.Fits (fun _ => none) s u := by
  cases hst with
  | @arrays e e' hs ht hfits =>
    cases htu with
    | arrays ht' hu hfits' =>
      obtain rfl := TypeKind.array.inj (ht.symm.trans ht')
      exact .array hs hu (hparts e' (mem_parts_of_array ht) hfits hfits')
    | functions ht' | classes ht' => cases ht.symm.trans ht'
  | @functions ps ps' q q' hs ht length params result =>
    cases htu with
    | functions ht' hu length' params' result' =>
      obtain ⟨rfl, rfl⟩ := TypeKind.function.inj (ht.symm.trans ht')
      have hmem := mem_parts_of_function ht
      refine .function hs hu (length.trans length') (fun pair hpair => ?_)
        (hparts q' (hmem q' List.mem_cons_self) result result')
      obtain ⟨p, hfirst, hsecond⟩ := exists_between_of_mem_zip length hpair
      have hp : p ∈ ps' := (List.of_mem_zip hfirst).2
      exact hparts p (hmem p (List.mem_cons_of_mem _ hp)) (params _ hfirst) (params' _ hsecond)
    | arrays ht' | classes ht' => cases ht.symm.trans ht'
  | classes hs hsub =>
    cases htu with
    | classes _ hsub' => exact h.fits_of_isSubclass (h.loopFree.isSubclass_trans hsub hsub')
    | arrays ht' | functions ht' => cases (h.nominal_above hs hsub).symm.trans ht'

/-- What fits a type that fits another one fits that one, if there is no poison in the type between
the two. -/
theorem fits_trans (ht : t.index < r.size) (hclean : ∀ p, r.OccursIn p t → r.isPoison p = false)
    (hst : r.Fits (fun _ => none) s t) (htu : r.Fits (fun _ => none) t u) :
    r.Fits (fun _ => none) s u := by
  -- The induction is on the type in the middle, whose parts are in the middle of their parts.
  induction t, ht using h.toCoherent.induct generalizing s u with
  | step t ht ih =>
    have hparts : ∀ p ∈ (r.kind t).parts, ∀ {s u}, r.Fits (fun _ => none) s p →
        r.Fits (fun _ => none) p u → r.Fits (fun _ => none) s u := by
      intro p hp s u hsp hpu
      obtain ⟨-, hp'⟩ := ih p hp
      exact hp' (fun q hq => hclean q (.part hp hq)) hsp hpu
    by_cases hpoison : r.isPoison s = true
    · exact .poison (.inl hpoison)
    · rcases h.fits_cases (hclean t .self) htu with (rfl | hpoison' | rfl) | htu'
      · exact hst
      · exact .poison (.inr hpoison')
      · exact .any
      · rcases h.fits_cases (Bool.eq_false_iff.mpr hpoison) hst with (rfl | hpoison' | rfl) | hst'
        · exact htu
        · rw [hclean t .self] at hpoison'
          cases hpoison'
        · rw [h.eq_any_of_fitting htu']
          exact .any
        · exact h.fitting_trans hparts hst' htu'

end Tiered

/-- **Assignability is a preorder that subclassing is a part of.** Where the parents of classes are
classes and no class is below itself, every type is assignable to itself, what is assignable to a
type without poison is assignable to whatever that is assignable to, and a subclass is assignable to
its superclass. -/
theorem assignable_preorder (h : Populated r) (hfree : r.LoopFree)
    (hclasses : r.ClassesExtendClasses) :
    (∀ s : TypeId, r.assignable s s = true) ∧
      (∀ s t u : TypeId, s.index < r.size → t.index < r.size → r.containsPoison t = false →
        r.assignable s t = true → r.assignable t u = true → r.assignable s u = true) ∧
      ∀ s t : TypeId, s.index < r.size → r.isSubclass s t = true → r.assignable s t = true := by
  have htiered : r.Tiered := h.tiered hfree hclasses
  refine ⟨fun s => ?_, fun s t u hs ht hclean hst htu => ?_, fun s t hs hsub => ?_⟩
  · unfold assignable infer
    rw [assignableWithin_of_guard (.inl rfl)]
  · rw [htiered.assignable_iff_fits hs] at hst ⊢
    rw [htiered.assignable_iff_fits ht] at htu
    -- The type in the middle has poison at no depth, where it would let anything pass.
    have hoccurs : ∀ p, r.OccursIn p t → r.isPoison p = false := by
      intro p hp
      refine Bool.eq_false_iff.mpr fun hpoison => ?_
      exact Bool.eq_false_iff.mp hclean (htiered.containsPoison_iff.mpr ⟨p, hp, hpoison⟩)
    exact htiered.fits_trans ht hoccurs hst htu
  · rw [htiered.assignable_iff_fits hs]
    exact htiered.fits_of_isSubclass hsub

/-- A class `Base` and a class `Derived` below it, the array types of both, and the function types
`(Derived[]) => Derived`, `(Base[]) => Base` and `(any[]) => any` after them. -/
def withDerived : Registry :=
  let r := (Registry.insert (.plain "Base" .nominal (some .any)) initial).2
  let r := (Registry.insert (.plain "Derived" .nominal (some ⟨7⟩)) r).2
  let r := (arrayOf ⟨8⟩ (arrayOf ⟨7⟩ r).2).2
  (functionOf [.anyArray] .any (functionOf [⟨9⟩] ⟨7⟩ (functionOf [⟨10⟩] ⟨8⟩ r).2).2).2

/-- The registry is populated. -/
theorem populated_withDerived : Populated withDerived := by
  have hrequest : ∀ {r : Registry} (q : Request), (∀ p ∈ q.kind.parts, p.index < r.size) →
      q.kind ≠ .placeholder → Populates r (q.answer r).2 := by
    intro r q hparts hkind
    refine .request q ⟨hparts, fun owner name hq => ?_⟩
    rw [hq] at hkind
    exact absurd rfl hkind
  have hbase : Populated (Registry.insert (.plain "Base" .nominal (some .any)) initial).2 :=
    .tail .refl (.register (d := .plain "Base" .nominal (some .any)) rfl (by decide +kernel) rfl)
  have hderived := hbase.tail (.register (d := .plain "Derived" .nominal (some ⟨7⟩)) rfl
    (by decide +kernel) rfl)
  have harrays := (hderived.tail (hrequest (.array ⟨7⟩) (by decide +kernel) (by decide))).tail
    (hrequest (.array ⟨8⟩) (by decide +kernel) (by decide))
  exact ((harrays.tail (hrequest (.function [⟨10⟩] ⟨8⟩) (by decide +kernel) (by decide))).tail
    (hrequest (.function [⟨9⟩] ⟨7⟩) (by decide +kernel) (by decide))).tail
    (hrequest (.function [.anyArray] .any) (by decide +kernel) (by decide))

/-- `Derived` is assignable to `Base`, and by way of `(Base[]) => Base` the function type
`(Derived[]) => Derived` is assignable to `(any[]) => any`. -/
theorem assignable_preorder_derived :
    Populated withDerived ∧ withDerived.LoopFree ∧ withDerived.ClassesExtendClasses ∧
      withDerived.kind ⟨11⟩ = .function [⟨10⟩] ⟨8⟩ ∧ withDerived.kind ⟨13⟩ = .function [.anyArray] .any ∧
      withDerived.assignable ⟨11⟩ ⟨13⟩ = true ∧ withDerived.assignable ⟨8⟩ ⟨7⟩ = true := by
  have hfree : withDerived.LoopFree := loopFree_of_lt (by decide +kernel)
  have hclasses : withDerived.ClassesExtendClasses := by
    have hall : ∀ i < withDerived.size, ∀ p ∈ withDerived.parent ⟨i⟩,
        withDerived.kind ⟨i⟩ = .nominal → withDerived.kind p = .nominal := by
      decide +kernel
    intro cls parent hkind hp
    exact hall cls.index (lt_size_of_parent hp) parent hp hkind
  obtain ⟨-, htrans, hsub⟩ := assignable_preorder populated_withDerived hfree hclasses
  refine ⟨populated_withDerived, hfree, hclasses, by decide +kernel, by decide +kernel, ?_, ?_⟩
  · exact htrans ⟨11⟩ ⟨12⟩ ⟨13⟩ (by decide +kernel) (by decide +kernel) (by decide +kernel)
      (by decide +kernel) (by decide +kernel)
  · exact hsub ⟨8⟩ ⟨7⟩ (by decide +kernel) (by decide +kernel)

end Registry

end ObjectGraph
