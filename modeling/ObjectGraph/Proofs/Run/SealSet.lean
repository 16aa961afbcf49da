import Mathlib.Data.Finset.Card
import Mathlib.Order.Bounds.Basic
import ObjectGraph.Proofs.Run.Inert
import ObjectGraph.Proofs.Run.Standstill

/-!
# What a sealing pass seals

A set of instances can be sealed together if it is among the given ones, none of it is final yet,
all that it holds has been evaluated, and all that it refers to is final or in the set
(`Heap.SealsTogether`). Dropping instances that are not supported keeps every such set, and it ends
with one. So a pass over discovered instances seals the greatest of them
(`Effect.seals_greatest`), in whatever order they are given (`Effect.sealDiscovered_congr`).
-/

namespace ObjectGraph

namespace Heap

variable {h : Heap} {ids ids' : List InstanceId} {id : InstanceId} {S : Set InstanceId}

/-! ## The greatest set -/

/-- A set of listed instances that can become final in one pass. -/
structure SealsTogether (h : Heap) (ids : List InstanceId) (S : Set InstanceId) : Prop where
  /-- All of them are listed. -/
  listed : ∀ id ∈ S, id ∈ ids
  /-- None of them is final yet. -/
  unsealed : ∀ id ∈ S, (h.get id).sealed = false
  /-- All of their properties and elements have been evaluated. -/
  terminal : ∀ id ∈ S, ∀ e ∈ (h.get id).values, e.isTerminal = true
  /-- What they refer to, directly or as the receiver of a function, is final or among them. -/
  referent : ∀ id ∈ S, ∀ e ∈ (h.get id).values, ∀ r, e.referent = some r →
    (h.get r).sealed = true ∨ r ∈ S

/-- What can be sealed can be sealed together. -/
theorem sealsTogether_sealable (h : Heap) (ids : List InstanceId) :
    h.SealsTogether ids {id | id ∈ h.sealable ids} where
  listed _ hid := (mem_sealable hid).1
  unsealed _ hid := unsealed_of_mem_sealable hid
  terminal _ hid := (mem_sealable hid).2.1
  referent _ hid := (mem_sealable hid).2.2

/-- An instance of the set has nothing left to evaluate. -/
theorem SealsTogether.isFinished (hS : h.SealsTogether ids S) (hid : id ∈ S) :
    h.isFinished id = true := by
  have hterminal : (h.get id).values.all Expr.isTerminal = true :=
    List.all_eq_true.mpr (hS.terminal id hid)
  rw [Heap.isFinished, hS.unsealed id hid, hterminal]
  rfl

/-- **What can be sealed is the greatest set** that can be sealed together. -/
theorem isGreatest_sealable (h : Heap) (ids : List InstanceId) :
    IsGreatest {S : Set InstanceId | h.SealsTogether ids S} {id | id ∈ h.sealable ids} := by
  constructor
  · exact h.sealsTogether_sealable ids
  · intro S hS id hid
    -- Whatever can be sealed together is finished and refers to nothing open outside of itself.
    have hfinished (id : InstanceId) (hid : id ∈ S) : id ∈ ids ∧ h.isFinished id = true :=
      ⟨hS.listed id hid, hS.isFinished hid⟩
    have hclosed (id : InstanceId) (hid : id ∈ S) (r : InstanceId) (hrefers : h.Refers id r) :
        (h.get r).sealed = true ∨ r ∈ S := by
      obtain ⟨e, he, href⟩ := hrefers
      exact hS.referent id hid e he r href
    exact mem_sealable_of_closed hfinished hclosed hid

/-- Which sets can be sealed together does not depend on the order of the list. -/
theorem SealsTogether.congr (hmem : ∀ id, id ∈ ids ↔ id ∈ ids') (hS : h.SealsTogether ids S) :
    h.SealsTogether ids' S where
  listed id hid := (hmem id).mp (hS.listed id hid)
  unsealed := hS.unsealed
  terminal := hS.terminal
  referent := hS.referent

/-- What can be sealed does not depend on the order of the list. -/
theorem mem_sealable_congr (hmem : ∀ id, id ∈ ids ↔ id ∈ ids') :
    id ∈ h.sealable ids ↔ id ∈ h.sealable ids' := by
  have hforth := (h.isGreatest_sealable ids').2 ((h.sealsTogether_sealable ids).congr hmem)
  have hback := (h.isGreatest_sealable ids).2
    ((h.sealsTogether_sealable ids').congr fun id => (hmem id).symm)
  exact ⟨fun hid => hforth hid, fun hid => hback hid⟩

/-! ## Marking it -/

/-- The heap with the marks of some instances set. -/
def withSealed (h : Heap) (S : Finset InstanceId) : Heap :=
  { h with
    instances := h.instances.mapIdx fun i inst =>
      { inst with sealed := inst.sealed || decide (⟨i⟩ ∈ S) } }

/-- Marking instances one after the other sets their marks and changes nothing else. -/
theorem markAllSealed_eq_withSealed (ids : List InstanceId) (h : Heap) :
    h.markAllSealed ids = h.withSealed ids.toFinset := by
  induction ids generalizing h with
  | nil =>
    have hsame : h.instances.mapIdx (fun i inst =>
        { inst with sealed := inst.sealed || decide (⟨i⟩ ∈ ([] : List InstanceId).toFinset) }) =
        h.instances := by
      refine Array.ext_getElem? fun i => ?_
      simp
    rw [withSealed, hsame]
    rfl
  | cons id ids ih =>
    rw [markAllSealed, List.foldl_cons, ← markAllSealed, ih]
    refine congrArg (fun instances => { h with instances }) (Array.ext_getElem? fun i => ?_)
    have hid : (⟨i⟩ : InstanceId) = id ↔ id.index = i := by
      cases id
      simp [eq_comm]
    simp only [markSealed, modifyInstance, Array.getElem?_mapIdx, Array.getElem?_modify,
      List.toFinset_cons, Finset.mem_insert, hid]
    by_cases hi : id.index = i
    · cases h.instances[i]? <;> simp [hi]
    · simp [hi]

end Heap

/-! ## A pass with the built-in plugins -/

namespace Effect

variable {σ : Type} {ids ids' : List InstanceId}

/-- A pass counts what can be sealed and sets its marks. -/
theorem sealDiscovered_builtin (hids : ids.Nodup) (w : World σ) :
    sealDiscovered .builtin ids w =
      .ok (w.heap.sealable ids).toFinset.card
        { w with heap := w.heap.withSealed (w.heap.sealable ids).toFinset } := by
  have hsame : (w.heap.sealingOrder ids).toFinset = (w.heap.sealable ids).toFinset := by
    ext id
    rw [List.mem_toFinset, List.mem_toFinset, Heap.mem_sealingOrder]
  have hcard := List.toFinset_card_of_nodup (Heap.nodup_sealingOrder (h := w.heap) hids)
  calc sealDiscovered .builtin ids w
      = .ok (w.heap.sealingOrder ids).length
          { w with heap := w.heap.markAllSealed (w.heap.sealingOrder ids) } :=
        sealDiscovered_eq Natives.inert_builtin ids w
    _ = .ok (w.heap.sealable ids).toFinset.card
          { w with heap := w.heap.withSealed (w.heap.sealable ids).toFinset } := by
        rw [Heap.markAllSealed_eq_withSealed, ← hcard, hsame]

/-- A pass seals the same in whatever order the instances are given. -/
theorem sealDiscovered_congr (hids : ids.Nodup) (hids' : ids'.Nodup)
    (hmem : ∀ id, id ∈ ids ↔ id ∈ ids') (w : World σ) :
    sealDiscovered .builtin ids w = sealDiscovered .builtin ids' w := by
  have hsame : (w.heap.sealable ids).toFinset = (w.heap.sealable ids').toFinset := by
    ext id
    rw [List.mem_toFinset, List.mem_toFinset, Heap.mem_sealable_congr hmem]
  rw [sealDiscovered_builtin hids, sealDiscovered_builtin hids', hsame]

/-- **A pass seals the greatest set that can be sealed together.** With the built-in plugins it
succeeds and answers how many instances the set has, and all that it changes are their marks. -/
theorem seals_greatest (hids : ids.Nodup) (w : World σ) :
    ∃ S : Finset InstanceId,
      IsGreatest {T : Set InstanceId | w.heap.SealsTogether ids T} S ∧
      sealDiscovered .builtin ids w = .ok S.card { w with heap := w.heap.withSealed S } := by
  refine ⟨_, ?_, sealDiscovered_builtin hids w⟩
  rw [List.coe_toFinset]
  exact w.heap.isGreatest_sealable ids

end Effect

/-- Two objects that refer to each other, and one with a property that has not been evaluated. -/
def World.circle : World Unit where
  types := .initial
  heap := { Heap.empty with
    instances := #[.holding [1], .holding [0],
      { Instance.holding [] with slots := [⟨"p", .any, .any, .this .any⟩] }] }
  host := ()

/-- The two objects of the circle are sealed together, and the third one is not. -/
theorem Effect.seals_greatest_circle :
    ([⟨2⟩, ⟨1⟩, ⟨0⟩] : List InstanceId).Nodup ∧
      sealDiscovered .builtin [⟨2⟩, ⟨1⟩, ⟨0⟩] World.circle =
        .ok 2 { World.circle with heap := World.circle.heap.withSealed {⟨0⟩, ⟨1⟩} } := by
  have hids : ([⟨2⟩, ⟨1⟩, ⟨0⟩] : List InstanceId).Nodup := by decide
  obtain ⟨S, ⟨hS, hgreatest⟩, hseal⟩ := seals_greatest hids World.circle
  -- The two refer to nothing but each other.
  have htwo : World.circle.heap.SealsTogether [⟨2⟩, ⟨1⟩, ⟨0⟩] {⟨0⟩, ⟨1⟩} := by
    refine ⟨?_, ?_, ?_, ?_⟩
    · rintro id (rfl | rfl) <;> decide
    · rintro id (rfl | rfl) <;> rfl
    · rintro id (rfl | rfl) e he <;> obtain rfl := List.mem_singleton.mp he <;> rfl
    · rintro id (rfl | rfl) e he r href <;> obtain rfl := List.mem_singleton.mp he <;>
        obtain rfl := Option.some.inj href
      · exact .inr (.inr rfl)
      · exact .inr (.inl rfl)
  -- The property of the third one is not terminal yet.
  have hpending : ⟨2⟩ ∉ S := fun hin => by
    have hterminal := hS.terminal ⟨2⟩ hin (.this .any) List.mem_cons_self
    cases hterminal
  have hSeq : S = {⟨0⟩, ⟨1⟩} := by
    refine Finset.Subset.antisymm (fun id hid => ?_) fun id hid => ?_
    · have hlisted := hS.listed id hid
      simp only [List.mem_cons, List.not_mem_nil, or_false] at hlisted
      rcases hlisted with rfl | rfl | rfl
      · exact absurd hid hpending
      · decide
      · decide
    · refine hgreatest htwo ?_
      rcases Finset.mem_insert.mp hid with rfl | hid
      · exact .inl rfl
      · exact .inr (Finset.mem_singleton.mp hid)
  rw [hSeq] at hseal
  exact ⟨hids, hseal⟩

end ObjectGraph
