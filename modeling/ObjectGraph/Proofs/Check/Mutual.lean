import Mathlib.Data.List.Zip
import ObjectGraph.Proofs.Check.Preorder

/-!
# Types that fit each other

Two types that are equal up to poison are assignable to each other, wherever in their shapes the
poison is (`poison_absorbed`). One comparison goes through both shapes at once and
stops at a position where either type is poison, so poison that sits at different places in the two
is met in the same way as poison at one place.

Nothing else is assignable in both directions. `any` and the superclasses of a class take more than
they can be used for, and where no class is below itself two classes take each other only if they
are the same. So equality up to poison is exactly what assignability in both directions comes to
(`Populated.sameUpToPoison_iff`).
-/

namespace ObjectGraph.Registry

variable {r : Registry} {s t : TypeId}

/-! ## Equality up to poison -/

/-- It does not matter on which side the poison is. -/
theorem SameUpToPoison.symm (h : r.SameUpToPoison s t) : r.SameUpToPoison t s := by
  induction h with
  | refl => exact .refl
  | poison h => exact .poison h.symm
  | array hs ht _ ih => exact .array ht hs ih
  | function hs ht length _ _ ihparams ihresult =>
    refine .function ht hs length.symm (fun pair hpair => ?_) ihresult
    exact ihparams pair.swap (List.zip_swap _ _ ▸ List.mem_map_of_mem hpair)

/-- Of two types that are equal up to poison, the first is assignable to the second. -/
theorem Coherent.assignable_of_sameUpToPoison (hr : r.Coherent) (hs : s.index < r.size)
    (h : r.SameUpToPoison s t) : r.assignable s t = true := by
  have hnone : ∀ g ∈ Bindings.empty.params, r.kind g = .placeholder := fun g hg => by cases hg
  rw [assignable, hr.infer_of_sameUpToPoison hnone h hs]

/-- **Poison is absorbed at any depth.** Two types of a registry that are equal up to poison are
assignable to each other when nothing is inferred. -/
theorem poison_absorbed (hr : Reachable .free r) (hs : s.index < r.size) (ht : t.index < r.size)
    (h : r.SameUpToPoison s t) : r.assignable s t = true ∧ r.assignable t s = true :=
  have hc := hr.coherent
  ⟨hc.assignable_of_sameUpToPoison hs h, hc.assignable_of_sameUpToPoison ht h.symm⟩

/-- The function types `(<error>, string) => int[]` and `(bool, string) => <error>`, with the poison
at different places, and the array types of both. -/
def withPoisonedFunctions : Registry :=
  let r := (arrayOf .int (newPoison initial).2).2
  let r := (functionOf [.bool, .string] ⟨7⟩ (functionOf [⟨7⟩, .string] ⟨8⟩ r).2).2
  (arrayOf ⟨10⟩ (arrayOf ⟨9⟩ r).2).2

/-- The registry arises. -/
theorem reachable_withPoisonedFunctions : Reachable .free withPoisonedFunctions :=
  (((((Relation.ReflTransGen.refl.tail .poison).tail
    (.request (.array .int) ⟨by decide, by rintro _ _ ⟨⟩⟩)).tail
    (.request (.function [⟨7⟩, .string] ⟨8⟩) ⟨by decide, by rintro _ _ ⟨⟩⟩)).tail
    (.request (.function [.bool, .string] ⟨7⟩) ⟨by decide, by rintro _ _ ⟨⟩⟩)).tail
    (.request (.array ⟨9⟩) ⟨by decide, by rintro _ _ ⟨⟩⟩)).tail
    (.request (.array ⟨10⟩) ⟨by decide, by rintro _ _ ⟨⟩⟩)

/-- The array types of the two functions are assignable to each other. -/
theorem poison_absorbed_functions :
    Reachable .free withPoisonedFunctions ∧
      withPoisonedFunctions.SameUpToPoison ⟨11⟩ ⟨12⟩ ∧
      withPoisonedFunctions.assignable ⟨11⟩ ⟨12⟩ = true ∧
      withPoisonedFunctions.assignable ⟨12⟩ ⟨11⟩ = true := by
  have hpoison : withPoisonedFunctions.isPoison ⟨7⟩ = true := by decide +kernel
  have hfunctions : withPoisonedFunctions.SameUpToPoison ⟨9⟩ ⟨10⟩ := by
    refine .function (show _ = TypeKind.function [⟨7⟩, .string] ⟨8⟩ by decide +kernel)
      (show _ = TypeKind.function [.bool, .string] ⟨7⟩ by decide +kernel) rfl ?_
      (.poison (.inr hpoison))
    intro pair hpair
    rcases List.mem_cons.mp hpair with rfl | hpair
    · exact .poison (.inl hpoison)
    · rw [List.mem_singleton.mp hpair]
      exact .refl
  have hsame : withPoisonedFunctions.SameUpToPoison ⟨11⟩ ⟨12⟩ :=
    .array (show _ = TypeKind.array ⟨9⟩ by decide +kernel)
      (show _ = TypeKind.array ⟨10⟩ by decide +kernel) hfunctions
  exact ⟨reachable_withPoisonedFunctions, hsame,
    poison_absorbed reachable_withPoisonedFunctions (by decide +kernel) (by decide +kernel) hsame⟩

/-! ## What is assignable in both directions -/

/-- Types of one form that fit each other are equal up to poison if their parts are. -/
theorem Tiered.sameUpToPoison_of_fitting (h : r.Tiered)
    (hparts : ∀ p ∈ (r.kind s).parts, ∀ {q}, r.Fits (fun _ => none) p q →
      r.Fits (fun _ => none) q p → r.SameUpToPoison p q)
    (hst : r.Fitting s t) (hts : r.Fitting t s) : r.SameUpToPoison s t := by
  cases hst with
  | @arrays e e' hs ht hfits =>
    cases hts with
    | arrays ht' hs' hback =>
      obtain rfl := TypeKind.array.inj (hs.symm.trans hs')
      obtain rfl := TypeKind.array.inj (ht.symm.trans ht')
      exact .array hs ht (hparts e (mem_parts_of_array hs) hfits hback)
    | functions ht' | classes ht' => cases ht.symm.trans ht'
  | @functions ps ps' q q' hs ht length params result =>
    cases hts with
    | functions ht' hs' _ params' result' =>
      obtain ⟨rfl, rfl⟩ := TypeKind.function.inj (hs.symm.trans hs')
      obtain ⟨rfl, rfl⟩ := TypeKind.function.inj (ht.symm.trans ht')
      have hmem := mem_parts_of_function hs
      refine .function hs ht length (fun pair hpair => ?_)
        (hparts q (hmem q List.mem_cons_self) result result')
      -- The way back compares the same pairs, each with its sides swapped.
      have hp : pair.1 ∈ ps := (List.of_mem_zip hpair).1
      exact hparts pair.1 (hmem _ (List.mem_cons_of_mem _ hp)) (params pair hpair)
        (params' pair.swap (List.zip_swap _ _ ▸ List.mem_map_of_mem hpair))
    | arrays ht' | classes ht' => cases ht.symm.trans ht'
  | classes hs hsub =>
    cases hts with
    | classes _ hback =>
      rw [h.loopFree.isSubclass_antisymm hsub hback]
      exact .refl
    | arrays _ hs' | functions _ hs' => cases hs.symm.trans hs'

/-- Nothing but poison takes `any`, `any` itself apart. -/
theorem Tiered.eq_any_of_fits (h : r.Tiered) (ht : r.isPoison t = false)
    (hfits : r.Fits (fun _ => none) .any t) : t = .any := by
  have hany : r.isPoison .any = false := by rw [isPoison, h.kind_any]; rfl
  rcases h.fits_cases hany hfits with (heq | hpoison | heq) | hform
  · exact heq
  · rw [ht] at hpoison
    cases hpoison
  · exact heq
  · exact h.eq_any_of_fitting hform

/-- Types that fit each other and are no poison are the same, or of one form in both directions. -/
theorem Tiered.eq_or_fitting (h : r.Tiered) (hs : r.isPoison s = false) (ht : r.isPoison t = false)
    (hst : r.Fits (fun _ => none) s t) (hts : r.Fits (fun _ => none) t s) :
    s = t ∨ r.Fitting s t ∧ r.Fitting t s := by
  rcases h.fits_cases hs hst with (heq | hpoison | rfl) | hform
  · exact .inl heq.symm
  · rw [ht] at hpoison
    cases hpoison
  · exact .inl (h.eq_any_of_fits hs hts)
  · rcases h.fits_cases ht hts with (heq | hpoison | rfl) | hback
    · exact .inl heq
    · rw [hs] at hpoison
      cases hpoison
    · exact .inl (h.eq_any_of_fits ht hst).symm
    · exact .inr ⟨hform, hback⟩

/-- Types that fit each other are equal up to poison. -/
theorem Tiered.sameUpToPoison_of_fits (h : r.Tiered) (hs : s.index < r.size)
    (hst : r.Fits (fun _ => none) s t) (hts : r.Fits (fun _ => none) t s) :
    r.SameUpToPoison s t := by
  induction s, hs using h.toCoherent.induct generalizing t with
  | step s hs ih =>
    by_cases hpoison : r.isPoison s = true ∨ r.isPoison t = true
    · exact .poison hpoison
    · rw [not_or, Bool.not_eq_true, Bool.not_eq_true] at hpoison
      rcases h.eq_or_fitting hpoison.1 hpoison.2 hst hts with rfl | ⟨hform, hback⟩
      · exact .refl
      · refine h.sameUpToPoison_of_fitting (fun p hp q hpq hqp => ?_) hform hback
        obtain ⟨-, hpart⟩ := ih p hp
        exact hpart hpq hqp

/-- **Types are assignable to each other exactly if they are equal up to poison**, where the parents
of classes are classes and no class is below itself. -/
theorem Populated.sameUpToPoison_iff (h : Populated r) (hfree : r.LoopFree)
    (hclasses : r.ClassesExtendClasses) (hs : s.index < r.size) (ht : t.index < r.size) :
    r.SameUpToPoison s t ↔ r.assignable s t = true ∧ r.assignable t s = true := by
  have htiered : r.Tiered := h.tiered hfree hclasses
  constructor
  · intro hsame
    exact ⟨htiered.assignable_of_sameUpToPoison hs hsame,
      htiered.assignable_of_sameUpToPoison ht hsame.symm⟩
  · rintro ⟨hst, hts⟩
    rw [htiered.assignable_iff_fits hs] at hst
    rw [htiered.assignable_iff_fits ht] at hts
    exact htiered.sameUpToPoison_of_fits hs hst hts

end ObjectGraph.Registry
