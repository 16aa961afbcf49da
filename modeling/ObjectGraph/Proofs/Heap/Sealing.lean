import ObjectGraph.Proofs.Heap.Grounded
import ObjectGraph.Proofs.Sweep

/-!
# Final instances

An instance may be marked as final once it holds values only and whatever it refers to is marked
with it or has been before (`Heap.SealSound`). Nothing about it changes from then on, and no other
property or element changes either that has got its value (`Heap.Settles`). Both are shown here for
the three ways in which a heap changes: instances are added, a cell that is not terminal is
written, and a set of instances is marked that is supported by itself (`mem_sealable`).
-/

namespace ObjectGraph

namespace Heap

/-- A final instance holds values only, and they refer to final instances only. -/
structure SealSound (h : Heap) : Prop where
  /-- What it holds is terminal. -/
  terminal : ∀ {id e}, (h.get id).sealed = true → e ∈ (h.get id).values → e.isTerminal = true
  /-- What it refers to is final. -/
  referent : ∀ {id e r}, (h.get id).sealed = true → e ∈ (h.get id).values →
    e.referent = some r → (h.get r).sealed = true

/-- What is final in the first heap is the same in the second: instances that are marked so, and
the values of properties and elements. -/
structure Settles (h h' : Heap) : Prop where
  /-- Final instances. -/
  sealed : ∀ {id}, (h.get id).sealed = true → h'.get id = h.get id
  /-- Properties that have got their values. -/
  slot : ∀ {id i e}, h.read? (.slot id i) = some e → e.isTerminal = true →
    h'.read? (.slot id i) = some e
  /-- Elements that have got their values. -/
  element : ∀ {id i e}, h.read? (.element id i) = some e → e.isTerminal = true →
    h'.read? (.element id i) = some e

variable {h h' h'' : Heap} {id : InstanceId} {c : Cell} {e : Expr}

namespace Settles

/-- Nothing has changed. -/
theorem refl : h.Settles h := ⟨fun _ => rfl, fun hr _ => hr, fun hr _ => hr⟩

/-- What stays the same twice stays the same. -/
theorem trans (a : h.Settles h') (b : h'.Settles h'') : h.Settles h'' where
  sealed hs := by
    have hsame := a.sealed hs
    rw [b.sealed (hsame ▸ hs), hsame]
  slot hr he := b.slot (a.slot hr he) he
  element hr he := b.element (a.element hr he) he

end Settles

/-! ## New instances -/

/-- A final instance is on the heap. -/
theorem has_of_sealed (hs : (h.get id).sealed = true) : h.Has (.object id) := by
  refine Nat.lt_of_not_le fun hle => ?_
  rw [get_of_le h hle] at hs
  cases hs

/-- An instance that has cells is on the heap. -/
theorem has_of_values (he : e ∈ (h.get id).values) : h.Has (.object id) := by
  refine Nat.lt_of_not_le fun hle => ?_
  rw [get_of_le h hle] at he
  cases he

/-- Instances that stay as they are settle. -/
theorem settles_of_kept (hkept : ∀ {id : InstanceId}, h.Has (.object id) → h'.get id = h.get id) :
    h.Settles h' where
  sealed hs := hkept (has_of_sealed hs)
  slot hr _ := by
    have hid := has_of_values (mem_values_iff.mpr (.inl ⟨_, hr⟩))
    rw [read?, hkept hid]
    exact hr
  element hr _ := by
    have hid := has_of_values (mem_values_iff.mpr (.inr ⟨_, hr⟩))
    rw [read?, hkept hid]
    exact hr

/-- Instances may be added that are not final or hold no values. -/
theorem SealSound.of_kept (hs : h.SealSound)
    (hkept : ∀ {id : InstanceId}, h.Has (.object id) → h'.get id = h.get id)
    (hfresh : ∀ {id : InstanceId}, ¬ h.Has (.object id) → (h'.get id).sealed = true →
      (h'.get id).values = []) : h'.SealSound := by
  -- A final instance that holds something was there before.
  have hold {id e} (hsealed : (h'.get id).sealed = true) (he : e ∈ (h'.get id).values) :
      h'.get id = h.get id := by
    refine hkept (Classical.byContradiction fun hid => ?_)
    rw [hfresh hid hsealed] at he
    cases he
  refine ⟨fun hsealed he => ?_, fun hsealed he href => ?_⟩
  · have hget := hold hsealed he
    rw [hget] at hsealed he
    exact hs.terminal hsealed he
  · have hget := hold hsealed he
    rw [hget] at hsealed he
    have hr := hs.referent hsealed he href
    rw [hkept (has_of_sealed hr)]
    exact hr

/-! ## Writing -/

/-- Writing a cell changes no other instance. -/
theorem get_write_of_ne (hc : c.node ≠ .object id) : (h.write c e).get id = h.get id := by
  cases c with
  | binding s i => rfl
  | slot owner i | element owner i =>
    rw [write, get_modifyInstance, if_neg]
    rintro ⟨rfl, -⟩
    exact hc rfl

/-- What a cell of an instance holds is among its values. -/
theorem mem_values_of_read? (hr : h.read? c = some e) (hc : c.node = .object id) :
    e ∈ (h.get id).values := by
  cases c with
  | binding s i => cases hc
  | slot owner i =>
    cases hc
    exact mem_values_iff.mpr (.inl ⟨i, hr⟩)
  | element owner i =>
    cases hc
    exact mem_values_iff.mpr (.inr ⟨i, hr⟩)

/-- The cell is a binding, or what it holds is not terminal. -/
def Open (h : Heap) (c : Cell) : Prop :=
  ∀ id, c.node = .object id → ∃ e, h.read? c = some e ∧ e.isTerminal = false

/-- A cell that is not terminal is open for as long as instances stay as they are. -/
theorem open_of_kept (hr : h.read? c = some e) (he : e.isTerminal = false)
    (hkept : ∀ {id : InstanceId}, h.Has (.object id) → h'.get id = h.get id) : h'.Open c := by
  intro id hc
  refine ⟨e, ?_, he⟩
  have hget := hkept (has_of_values (mem_values_of_read? hr hc))
  cases c with
  | binding s i => cases hc
  | slot owner i | element owner i =>
    cases hc
    rw [read?, hget]
    exact hr

/-- An instance with an open cell is not final. -/
theorem SealSound.node_ne (hs : h.SealSound) (ho : h.Open c)
    (hsealed : (h.get id).sealed = true) : c.node ≠ .object id := by
  intro hc
  obtain ⟨e, hr, he⟩ := ho id hc
  have hterminal := hs.terminal hsealed (mem_values_of_read? hr hc)
  rw [he] at hterminal
  cases hterminal

/-- An open cell may be written. -/
theorem SealSound.write (hs : h.SealSound) (ho : h.Open c) (e : Expr) : (h.write c e).SealSound := by
  have hsame {id} (hsealed : ((h.write c e).get id).sealed = true) :
      (h.get id).sealed = true ∧ (h.write c e).get id = h.get id := by
    rw [sealed_write] at hsealed
    exact ⟨hsealed, get_write_of_ne (hs.node_ne ho hsealed)⟩
  refine ⟨fun hsealed hv => ?_, fun hsealed hv href => ?_⟩
  · obtain ⟨hsealed, hget⟩ := hsame hsealed
    rw [hget] at hv
    exact hs.terminal hsealed hv
  · obtain ⟨hsealed, hget⟩ := hsame hsealed
    rw [hget] at hv
    rw [sealed_write]
    exact hs.referent hsealed hv href

/-- Writing an open cell changes nothing final. -/
theorem SealSound.settles_write (hs : h.SealSound) (ho : h.Open c) (e : Expr) :
    h.Settles (h.write c e) := by
  have hother {c' id e'} (hc' : c'.node = .object id) (hr : h.read? c' = some e')
      (he' : e'.isTerminal = true) : (h.write c e).read? c' = some e' := by
    rw [read?_write_of_ne, hr]
    rintro rfl
    obtain ⟨e₀, hr₀, he₀⟩ := ho id hc'
    obtain rfl : e₀ = e' := Option.some.inj (hr₀.symm.trans hr)
    rw [he₀] at he'
    cases he'
  exact ⟨fun hsealed => get_write_of_ne (hs.node_ne ho hsealed), hother rfl, hother rfl⟩

/-! ## Marking -/

/-- Marks instances as final. -/
def markAllSealed (ids : List InstanceId) (h : Heap) : Heap := ids.foldl markSealed h

/-- Marking changes the marks of the given instances alone. -/
theorem get_markAllSealed (ids : List InstanceId) (h : Heap) (id : InstanceId) :
    (h.markAllSealed ids).get id =
      { h.get id with
        sealed := (h.get id).sealed || decide (id ∈ ids ∧ id.index < h.instances.size) } := by
  induction ids generalizing h with
  | nil => simp [markAllSealed]
  | cons first ids ih =>
    have hsize : (h.markSealed first).instances.size = h.instances.size := by
      simp [markSealed, modifyInstance]
    rw [markAllSealed, List.foldl_cons, ← markAllSealed, ih, hsize, markSealed, get_modifyInstance]
    by_cases hfirst : first = id
    · subst hfirst
      by_cases hsize : first.index < h.instances.size <;> simp [hsize]
    · simp [hfirst, Ne.symm hfirst]

/-- Marking leaves other instances as they are. -/
theorem get_markAllSealed_of_not_mem {ids : List InstanceId} (hid : id ∉ ids) (h : Heap) :
    (h.markAllSealed ids).get id = h.get id := by
  have hnot : ¬ (id ∈ ids ∧ id.index < h.instances.size) := fun hmem => hid hmem.1
  rw [get_markAllSealed, decide_eq_false hnot, Bool.or_false]

/-- Those instances are final after marking that were marked or have been final before. -/
theorem sealed_markAllSealed_iff {ids : List InstanceId} :
    ((h.markAllSealed ids).get id).sealed = true ↔
      (h.get id).sealed = true ∨ id ∈ ids ∧ h.Has (.object id) := by
  rw [get_markAllSealed, Bool.or_eq_true, decide_eq_true_eq]
  rfl

/-- Instances of the heap are marked if they are asked for. -/
theorem sealed_markAllSealed (ids : List InstanceId) (hid : h.Has (.object id)) :
    ((h.markAllSealed ids).get id).sealed = true ↔ (h.get id).sealed = true ∨ id ∈ ids := by
  rw [sealed_markAllSealed_iff, and_iff_left hid]

/-- Marking changes no values. -/
theorem values_markAllSealed (ids : List InstanceId) (h : Heap) (id : InstanceId) :
    ((h.markAllSealed ids).get id).values = (h.get id).values := by
  rw [get_markAllSealed]
  rfl

/-- Marking adds and removes nothing. -/
theorem within_markAllSealed (ids : List InstanceId) (h : Heap) :
    h.Within (h.markAllSealed ids) := by
  induction ids generalizing h with
  | nil => exact .refl
  | cons first ids ih => exact (within_modifyInstance first _).trans (ih _)

/-- Marking leaves no handle dangling. -/
theorem Grounded.markAllSealed (ids : List InstanceId) (hg : h.Grounded) :
    (h.markAllSealed ids).Grounded := by
  induction ids generalizing h with
  | nil => exact hg
  | cons first ids ih => exact ih (hg.markSealed first)

/-- Marking changes nothing that is final already. -/
theorem settles_markAllSealed (ids : List InstanceId) (h : Heap) :
    h.Settles (h.markAllSealed ids) := by
  refine ⟨fun hs => ?_, fun hr _ => ?_, fun hr _ => ?_⟩
  · rw [get_markAllSealed, hs, Bool.true_or, ← hs]
  · rw [read?, get_markAllSealed]
    exact hr
  · rw [read?, get_markAllSealed]
    exact hr

/-- Instances may be marked that hold values only and are supported by each other and by what is
final already. -/
theorem SealSound.markAllSealed (hs : h.SealSound) {ids : List InstanceId}
    (hids : ∀ id ∈ ids, h.Has (.object id))
    (hterminal : ∀ id ∈ ids, ∀ e ∈ (h.get id).values, e.isTerminal = true)
    (hreferent : ∀ id ∈ ids, ∀ e ∈ (h.get id).values, ∀ r, e.referent = some r →
      (h.get r).sealed = true ∨ r ∈ ids) : (h.markAllSealed ids).SealSound := by
  have hsealed {id} : ((h.markAllSealed ids).get id).sealed = true ↔
      (h.get id).sealed = true ∨ id ∈ ids := by
    rw [sealed_markAllSealed_iff, and_iff_left_of_imp (hids id)]
  refine ⟨fun {id e} hid he => ?_, fun {id e r} hid he href => ?_⟩
  · rw [values_markAllSealed] at he
    exact (hsealed.mp hid).elim (hs.terminal · he) (hterminal id · e he)
  · rw [values_markAllSealed] at he
    refine hsealed.mpr ?_
    exact (hsealed.mp hid).elim (fun hid => .inl (hs.referent hid he href))
      (fun hid => hreferent id hid e he r href)

/-! ## What can be sealed together -/

/-- The rounds only drop instances. -/
theorem mem_of_mem_largestSupported {fuel : ℕ} {ids : List InstanceId}
    (hid : id ∈ h.largestSupported fuel ids) : id ∈ ids := by
  induction fuel generalizing ids with
  | zero => exact hid
  | succ fuel ih =>
    simp only [largestSupported] at hid
    split at hid
    · exact hid
    · exact (List.mem_filter.mp (ih hid)).1

/-- With a round for each instance, the rounds end with instances that support each other. -/
theorem isSupported_largestSupported {fuel : ℕ} {ids : List InstanceId} (hfuel : ids.length ≤ fuel)
    (hid : id ∈ h.largestSupported fuel ids) :
    h.isSupported (h.largestSupported fuel ids) id = true := by
  induction fuel generalizing ids with
  | zero =>
    obtain rfl := List.length_eq_zero_iff.mp (Nat.le_zero.mp hfuel)
    cases hid
  | succ fuel ih =>
    simp only [largestSupported] at hid ⊢
    split at hid
    case isTrue hsame =>
      -- Nothing was dropped, so that all of them are supported.
      rw [if_pos hsame]
      exact List.length_filter_eq_length_iff.mp hsame id hid
    case isFalse hdropped =>
      rw [if_neg hdropped]
      have hle := List.length_filter_le (h.isSupported ids) ids
      exact ih (by omega) hid

/-- What can be sealed is not final yet. -/
theorem unsealed_of_mem_sealable {ids : List InstanceId} (hid : id ∈ h.sealable ids) :
    (h.get id).sealed = false := by
  obtain ⟨-, hfinished⟩ := List.mem_filter.mp (mem_of_mem_largestSupported hid)
  rw [isFinished, Bool.and_eq_true, Bool.not_eq_true'] at hfinished
  exact hfinished.1

/-- What can be sealed together was asked for, holds values only, and is supported. -/
theorem mem_sealable {ids : List InstanceId} (hid : id ∈ h.sealable ids) :
    id ∈ ids ∧ (∀ e ∈ (h.get id).values, e.isTerminal = true) ∧
      ∀ e ∈ (h.get id).values, ∀ r, e.referent = some r →
        (h.get r).sealed = true ∨ r ∈ h.sealable ids := by
  obtain ⟨hmem, hfinished⟩ := List.mem_filter.mp (mem_of_mem_largestSupported hid)
  rw [isFinished, Bool.and_eq_true, List.all_eq_true] at hfinished
  have hsupported := isSupported_largestSupported (Nat.le_refl _) hid
  rw [isSupported, List.all_eq_true] at hsupported
  refine ⟨hmem, hfinished.2, fun e he r href => ?_⟩
  have hr := hsupported e he
  simp only [href, Bool.or_eq_true, List.contains_iff_mem] at hr
  exact hr

end Heap

end ObjectGraph
