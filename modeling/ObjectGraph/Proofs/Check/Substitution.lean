import ObjectGraph.Proofs.Check.Recovery

/-!
# Substitutions that find their result

Replacing placeholders rebuilds array types and function types, and each of them is asked for by
its key. Where a registered type is what the replacing gives, it is found at every level, and
nothing is registered (`Coherent.substitute_of_replaced`). A type is what the replacing gives for
itself if every placeholder that occurs in it is left in place, and under no other values
(`Coherent.replaced_self_iff`). Then it is found (`substitute_unchanged`).
-/

namespace ObjectGraph.Registry

variable {r : Registry} {values : TypeId → Option TypeId} {ty ty' : TypeId}

/-! ## Finding a shape -/

/-- A shape that is registered is found. -/
theorem Coherent.answer_of_kind (h : r.Coherent) {q : Request} (hty : ty.index < r.size)
    (hkind : r.kind ty = q.kind) (hshape : q.kind.parts ≠ []) : q.answer r = (ty, r) := by
  rcases request_cases q r with hkey | ⟨owner, name, rfl⟩
  · rw [← hkind] at hkey
    rw [q.answer_eq, findOrInsert, (h.shape hty hkey).2]
  · exact absurd rfl hshape

/-- A step that answers goes on from its answer. -/
theorem bind_of_eq {α β : Type} {step : Registering α} {next : α → Registering β} {a : α}
    {r' : Registry} (h : step r = (a, r')) : (step >>= next) r = next a r' := by
  show next (step r).1 (step r).2 = _
  rw [h]

/-- Steps for the items of a list that find their answers find the list of them. -/
theorem mapM_eq_of_zip {step : TypeId → Registering TypeId} {types types' : List TypeId}
    (hlength : types.length = types'.length)
    (hstep : ∀ pair ∈ types.zip types', step pair.1 r = (pair.2, r)) :
    types.mapM step r = (types', r) := by
  induction types generalizing types' with
  | nil =>
    obtain rfl := List.length_eq_zero_iff.mp hlength.symm
    rfl
  | cons t types ih =>
    cases types' with
    | nil => cases hlength
    | cons t' types' =>
      have hrest := ih (Nat.succ.inj hlength) fun pair hpair =>
        hstep pair (List.mem_cons_of_mem _ hpair)
      rw [List.mapM_cons, bind_of_eq (hstep (t, t') List.mem_cons_self), bind_of_eq hrest]
      rfl

/-! ## Finding the result -/

/-- With fuel beyond the position of a type, what the replacing gives is found. -/
theorem Coherent.substituteWithin_of_replaced (h : r.Coherent)
    (hreplaced : r.Replaced values ty ty') (hty : ty.index < r.size) (hty' : ty'.index < r.size)
    {fuel : ℕ} (hfuel : ty.index < fuel) : substituteWithin values fuel ty r = (ty', r) := by
  -- By induction on what the result is made of: once the parts are found, nothing has been
  -- registered, and the key that is asked for is that of the result.
  induction hreplaced generalizing fuel with
  | placeholder hk =>
    obtain ⟨fuel, rfl⟩ := Nat.exists_eq_add_of_lt hfuel
    exact substituteWithin_of_placeholder hk
  | leaf hk =>
    obtain ⟨fuel, rfl⟩ := Nat.exists_eq_add_of_lt hfuel
    exact substituteWithin_of_closed hk
  | @array ty ty' e e' hk hk' _ ih =>
    obtain ⟨fuel, rfl⟩ := Nat.exists_eq_add_of_lt hfuel
    have hlt : e.index < ty.index := h.parts hty e (mem_parts_of_array hk)
    have he' : e'.index < r.size := h.parts_registered (mem_parts_of_array hk')
    rw [substituteWithin_of_array hk,
      bind_of_eq (ih (Nat.lt_trans hlt hty) he' (Nat.lt_add_right fuel hlt))]
    exact h.answer_of_kind (q := .array e') hty' hk' (List.cons_ne_nil _ _)
  | @function ty ty' q q' ps ps' hk hk' length _ _ ihparams ihresult =>
    obtain ⟨fuel, rfl⟩ := Nat.exists_eq_add_of_lt hfuel
    have hpart : ∀ p ∈ q :: ps, p.index < ty.index := fun p hp =>
      h.parts hty p (mem_parts_of_function hk p hp)
    have hpart' : ∀ p ∈ q' :: ps', p.index < r.size := fun p hp =>
      h.parts_registered (mem_parts_of_function hk' p hp)
    have hresult := ihresult (Nat.lt_trans (hpart q List.mem_cons_self) hty)
      (hpart' q' List.mem_cons_self) (Nat.lt_add_right fuel (hpart q List.mem_cons_self))
    have hparams := mapM_eq_of_zip (r := r) length fun pair hpair => by
      have hmem := List.of_mem_zip hpair
      have hlt := hpart pair.1 (List.mem_cons_of_mem _ hmem.1)
      exact ihparams pair hpair (Nat.lt_trans hlt hty)
        (hpart' pair.2 (List.mem_cons_of_mem _ hmem.2)) (Nat.lt_add_right fuel hlt)
    -- The result is rebuilt first, then the parameters, in the registry as it was.
    rw [substituteWithin_of_function hk, bind_of_eq hresult, bind_of_eq hparams]
    exact h.answer_of_kind (q := .function ps' q') hty' hk' (List.cons_ne_nil _ _)

/-- **What a substitution gives is found if it is there**, and nothing is registered. -/
theorem Coherent.substitute_of_replaced (h : r.Coherent) (hreplaced : r.Replaced values ty ty')
    (hty : ty.index < r.size) (hty' : ty'.index < r.size) : substitute values ty r = (ty', r) :=
  h.substituteWithin_of_replaced hreplaced hty hty' hty

/-! ## Nothing to change -/

/-- A type is what the replacing gives if each placeholder that occurs in it is left in place, and
not otherwise. -/
theorem Coherent.replaced_self_iff (h : r.Coherent) (hty : ty.index < r.size) :
    r.Replaced values ty ty ↔
      ∀ p, r.OccursIn p ty → r.kind p = .placeholder → values p = none ∨ values p = some p := by
  refine ⟨fun hreplaced p hp hk => ?_, fun hleft => h.replaced_self hty fun p hp hk => ?_⟩
  · cases hvalue : values p with
    | none => exact .inl rfl
    | some v =>
      by_contra hchanged
      refine hreplaced.not_occursIn hk hvalue (fun heq => hchanged (.inr ?_)) hp
      rw [heq]
  · rcases hleft p hp hk with hvalue | hvalue <;> rw [hvalue] <;> rfl

/-- **A substitution that changes nothing is the identity.** A registered type is found again, and
nothing is registered, under values that leave the placeholders that occur in it in place; these
are all values if the type mentions no placeholder. -/
theorem substitute_unchanged (hr : Reachable .free r) (hty : ty.index < r.size) :
    (∀ values : TypeId → Option TypeId,
        (∀ p, r.OccursIn p ty → r.kind p = .placeholder → values p = none ∨ values p = some p) →
          substitute values ty r = (ty, r)) ∧
      (r.containsPlaceholder ty = false →
        ∀ values : TypeId → Option TypeId, substitute values ty r = (ty, r)) := by
  have hc := hr.coherent
  have hleft (values : TypeId → Option TypeId)
      (h : ∀ p, r.OccursIn p ty → r.kind p = .placeholder → values p = none ∨ values p = some p) :
      substitute values ty r = (ty, r) :=
    hc.substitute_of_replaced ((hc.replaced_self_iff hty).mpr h) hty hty
  refine ⟨hleft, fun hfree values => hleft values fun p hp hk => ?_⟩
  exact absurd hk ((hc.containsPlaceholder_eq_false_iff hty).mp hfree p hp)

/-- The function type `(Main.m.T[], int) => Main.m.T`. -/
def withPlaceholderArray : Registry :=
  let (param, r) := placeholder "Main.m" "T" initial
  let (array, r) := arrayOf param r
  (functionOf [array, .int] param r).2

/-- The registry arises. -/
theorem reachable_withPlaceholderArray : Reachable .free withPlaceholderArray :=
  ((Relation.ReflTransGen.refl.tail
    (.request (.placeholder "Main.m" "T") ⟨by decide, fun _ _ _ => trivial⟩)).tail
    (.request (.array ⟨7⟩) ⟨by decide, by rintro _ _ ⟨⟩⟩)).tail
    (.request (.function [⟨8⟩, .int] ⟨7⟩) ⟨by decide, by rintro _ _ ⟨⟩⟩)

/-- The function type is rebuilt as itself by values for all types but placeholders, and `any[]` by
any values. -/
theorem substitute_unchanged_placeholderArray :
    let r := withPlaceholderArray
    r.containsPlaceholder ⟨9⟩ = true ∧ r.containsPlaceholder .anyArray = false ∧
      substitute (fun p => some (if r.kind p = .placeholder then p else .int)) ⟨9⟩ r = (⟨9⟩, r) ∧
      substitute (fun _ => some .int) .anyArray r = (.anyArray, r) := by
  intro r
  have hclosed : r.containsPlaceholder .anyArray = false := by decide +kernel
  refine ⟨by decide +kernel, hclosed, ?_, ?_⟩
  · refine (substitute_unchanged reachable_withPlaceholderArray (by decide +kernel)).1 _ ?_
    exact fun p _ hk => .inr (congrArg some (if_pos hk))
  · exact (substitute_unchanged reachable_withPlaceholderArray (by decide +kernel)).2 hclosed _

end ObjectGraph.Registry
