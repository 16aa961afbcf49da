import ObjectGraph.Proofs.Body.Results
import ObjectGraph.Proofs.Formula.Properties

/-!
# The order within a sweep

Sweeps go through what they have found in the order in which it is declared, or in reverse. Where the
values of an object are fixed beforehand, the order makes no difference to them
(`order_independent`): a class of formulas has the values of recursive evaluation, and a class of
race-free calls the values that statements come to one after the other. A race may be decided by the
order (`overtaken_depends_on_order`).
-/

namespace ObjectGraph

variable {σ : Type} {natives : Natives σ}

/-- A class without races, with the arguments that it is constructed with: its properties are
formulas, or they call methods with race-free bodies. -/
inductive RaceFreeClass (natives : Natives σ) (types : Registry) (cls : TypeId) :
    List Scalar → Prop where
  /-- A class of formulas. -/
  | formulas {args} : FormulaClass natives types cls args → RaceFreeClass natives types cls args
  /-- A class of calls. -/
  | calls {calls results} : CallClass natives types cls calls results →
    RaceFreeClass natives types cls []

section Order

variable {types : Registry} {cls : TypeId} {host : σ} {sweeps : ℕ} {json : Json}

/-- What one order evaluates a class of formulas to, each other order does. -/
theorem FormulaClass.exists_evaluated (hn : natives.HasScalars) {args : List Scalar}
    (hc : FormulaClass natives types cls args) {order : SweepOrder}
    (h : evaluated natives ⟨sweeps, order⟩ types cls (args.map .scalar) host = .ok json)
    (order' : SweepOrder) :
    ∃ sweeps', evaluated natives ⟨sweeps', order'⟩ types cls (args.map .scalar) host = .ok json := by
  obtain ⟨root, w, hconstruct, hsucceeds, hshows⟩ := hc.construct_and_run hn host
  obtain ⟨stats, w₁, hrun, hjson⟩ := run_of_evaluated hconstruct h
  obtain ⟨values, hvalues, hshown⟩ := hshows _ _ _ hrun
  have hall : ∀ p ∈ (types.definition cls).properties,
      ∃ v, ((types.definition cls).sheet args).value? p.name = some v := by
    intro p hp
    obtain ⟨i, hi, rfl⟩ := List.mem_iff_getElem.mp hp
    exact ⟨_, hvalues.get hi (hvalues.length_eq ▸ hi)⟩
  obtain ⟨enough, hruns⟩ := hsucceeds hall order'
  obtain ⟨stats', w₂, hrun'⟩ := hruns enough (Nat.le_refl _)
  obtain ⟨values', hvalues', hshown'⟩ := hshows _ _ _ hrun'
  -- Each property has one value, so that both orders have come to the same values.
  have hunique : Relator.RightUnique fun (p : Property) v =>
      ((types.definition cls).sheet args).value? p.name = some v :=
    fun p v v' hv hv' => Option.some.inj (hv.symm.trans hv')
  obtain rfl := List.right_unique_forall₂' hunique hvalues hvalues'
  refine ⟨enough, ?_⟩
  rw [evaluated_of_run hconstruct hrun', hshown', ← hshown, hjson]

/-- What one order evaluates a class of calls to, each other order does. -/
theorem CallClass.exists_evaluated (hn : natives.HasScalars) {calls : List Call}
    {results : List (Option Scalar)} (hc : CallClass natives types cls calls results)
    {order : SweepOrder} (h : evaluated natives ⟨sweeps, order⟩ types cls [] host = .ok json)
    (order' : SweepOrder) :
    ∃ sweeps', evaluated natives ⟨sweeps', order'⟩ types cls [] host = .ok json := by
  obtain ⟨root, w, hconstruct, hsucceeds, hshows⟩ := hc.construct_and_run hn host
  obtain ⟨stats, w₁, hrun, hjson⟩ := run_of_evaluated hconstruct h
  obtain ⟨enough, hruns⟩ := hsucceeds order'
  obtain ⟨stats', w₂, hrun'⟩ := hruns enough (Nat.le_refl _)
  refine ⟨enough, ?_⟩
  rw [evaluated_of_run hconstruct hrun', hshows _ _ _ hrun', ← hshows _ _ _ hrun, hjson]

end Order

/-- **The order within a sweep makes no difference** to a class without races: one order evaluates an
object to a piece of JSON, given enough sweeps, exactly if the other one does. -/
theorem order_independent (hn : natives.HasScalars) {types : Registry} {cls : TypeId}
    {args : List Scalar} (hc : RaceFreeClass natives types cls args) (host : σ) (json : Json) :
    (∃ sweeps, evaluated natives ⟨sweeps, .declared⟩ types cls (args.map .scalar) host = .ok json) ↔
      ∃ sweeps,
        evaluated natives ⟨sweeps, .reverse⟩ types cls (args.map .scalar) host = .ok json := by
  have hother (order order' : SweepOrder)
      (h : ∃ sweeps,
        evaluated natives ⟨sweeps, order⟩ types cls (args.map .scalar) host = .ok json) :
      ∃ sweeps,
        evaluated natives ⟨sweeps, order'⟩ types cls (args.map .scalar) host = .ok json := by
    obtain ⟨sweeps, h⟩ := h
    cases hc with
    | formulas hc => exact hc.exists_evaluated hn h order'
    | calls hc => exact hc.exists_evaluated hn h order'
  exact ⟨hother .declared .reverse, hother .reverse .declared⟩

/-- Two calls of race-free methods are evaluated alike in both orders. -/
theorem order_independent_bothCalls :
    ∃ sweeps, evaluated Natives.builtin ⟨sweeps, .declared⟩ (.ofClass bothCalls) .main [] () =
      .ok (.object [("a", .int 4), ("b", .null)]) := by
  obtain ⟨root, w, hconstruct, hsucceeds, hshows⟩ :=
    callClass_bothCalls.construct_and_run Natives.builtin_hasScalars ()
  obtain ⟨enough, hruns⟩ := hsucceeds .reverse
  obtain ⟨stats, w', hrun⟩ := hruns enough (Nat.le_refl _)
  refine (order_independent Natives.builtin_hasScalars (.calls callClass_bothCalls) () _).mpr
    ⟨enough, ?_⟩
  have hshown := hshows _ _ _ hrun
  rw [Registry.definition_ofClass] at hshown
  rw [List.map_nil, evaluated_of_run hconstruct hrun, hshown]
  rfl

/-- Which of an assignment and the initializer above it comes first may depend on the order. -/
theorem overtaken_depends_on_order :
    let types := Registry.ofClass (overtaken (.binary .add (.int 1) (.int 2) .int))
    evaluated (Natives.builtin : Natives Unit) { order := .declared } types .main [] () =
        .ok (.object [("a", .int 3)]) ∧
      evaluated (Natives.builtin : Natives Unit) { order := .reverse } types .main [] () =
        .ok (.object [("a", .int 5)]) := by
  intro types
  exact ⟨eq_ok_of_showsInt (by decide +kernel), eq_ok_of_showsInt (by decide +kernel)⟩

end ObjectGraph
