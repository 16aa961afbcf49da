import ObjectGraph.Proofs.Heap.Grounded

/-!
# Scopes lie in older scopes

A scope is allocated with its parent given, and the parent never changes. So if a parent is always
on the heap before the scope is, every scope lies in an older one, whose position is smaller
(`Heap.Nested`). Then a walk from a scope outwards comes to smaller and smaller positions, and ends
at a scope without a parent (`Nested.chainEnds`): it takes no more steps than the chain is given,
and no look-up of a name or a receiver misses the outermost scope.

Whether an operation keeps scopes nested can be told from the two heaps alone, by the parents that
are new in the second one (`Heap.NestsIn`). Only the allocation of a scope brings one.
-/

namespace ObjectGraph

namespace Heap

/-- Every scope that has a parent is younger than its parent. -/
def Nested (h : Heap) : Prop := ∀ s p, (h.scope s).parent = some p → p.index < s.index

/-- A scope of the second heap that has a parent had it in the first one, or is younger. -/
def NestsIn (h h' : Heap) : Prop :=
  ∀ s p, (h'.scope s).parent = some p → (h.scope s).parent = some p ∨ p.index < s.index

/-- A walk from the scope outwards leads through older and older scopes of the heap to one that has
no parent. -/
structure ChainEnds (h : Heap) (s : ScopeId) : Prop where
  /-- Each scope is older than those before it. -/
  older : (h.chain s).Pairwise fun inner outer => outer.index < inner.index
  /-- The scopes are on the heap. -/
  has : ∀ t ∈ h.chain s, h.Has (.scope t)
  /-- The last one has no parent. -/
  outermost : ∃ t, (h.chain s).getLast? = some t ∧ (h.scope t).parent = none

variable {h h' h'' : Heap}

/-! ## Operations -/

namespace NestsIn

/-- Nothing has changed. -/
theorem refl : h.NestsIn h := fun _ _ hp => .inl hp

/-- What nests twice nests. -/
theorem trans (a : h.NestsIn h') (b : h'.NestsIn h'') : h.NestsIn h'' := by
  intro s p hp
  rcases b s p hp with hp | hlt
  · exact a s p hp
  · exact .inr hlt

/-- Nesting is a matter of parents. -/
theorem of_parents_eq (heq : ∀ s, (h'.scope s).parent = (h.scope s).parent) : h.NestsIn h' := by
  intro s p hp
  rw [heq] at hp
  exact .inl hp

/-- A scope may be added in one of the heap. -/
theorem allocScope {sc : Scope} (hparent : ∀ p, sc.parent = some p → h.Has (.scope p)) :
    h.NestsIn (h.allocScope sc).2 := by
  intro s p hp
  rw [scope_allocScope] at hp
  split at hp
  case isTrue hnew =>
    -- The new scope stands behind all others, among them its parent.
    have hlt : p.index < h.scopes.size := hparent p hp
    omega
  case isFalse => exact .inl hp

/-- Writing a cell changes no parent. -/
theorem write (c : Cell) (e : Expr) : h.NestsIn (h.write c e) :=
  of_parents_eq fun s => parent_write h c e s

end NestsIn

/-- Nested scopes stay nested. -/
theorem Nested.extend (hn : h.Nested) (hin : h.NestsIn h') : h'.Nested := by
  intro s p hp
  rcases hin s p hp with hp | hlt
  · exact hn s p hp
  · exact hlt

/-! ## Walks -/

/-- The scopes around a scope are older. -/
theorem Nested.lt_of_mem_outerWithin (hn : h.Nested) {fuel : ℕ} {s t : ScopeId}
    (ht : t ∈ h.outerWithin fuel s) : t.index < s.index := by
  induction fuel generalizing s with
  | zero => cases ht
  | succ fuel ih =>
    rw [outerWithin] at ht
    split at ht
    case h_1 p hp =>
      have hlt : p.index < s.index := hn s p hp
      rcases List.mem_cons.mp ht with rfl | ht
      · exact hlt
      · have hbeyond : t.index < p.index := ih ht
        omega
    case h_2 => cases ht

/-- The scopes around a scope are older and older. -/
theorem Nested.pairwise_outerWithin (hn : h.Nested) (fuel : ℕ) (s : ScopeId) :
    (s :: h.outerWithin fuel s).Pairwise fun inner outer => outer.index < inner.index := by
  induction fuel generalizing s with
  | zero => exact List.pairwise_singleton _ s
  | succ fuel ih =>
    refine List.pairwise_cons.mpr ⟨fun t ht => hn.lt_of_mem_outerWithin ht, ?_⟩
    rw [outerWithin]
    split
    · exact ih _
    · exact List.Pairwise.nil

/-- A walk that may take as many steps as the scope's position comes to a scope without a parent. -/
theorem Nested.exists_outermost (hn : h.Nested) {fuel : ℕ} {s : ScopeId} (hs : s.index ≤ fuel) :
    ∃ t, (s :: h.outerWithin fuel s).getLast? = some t ∧ (h.scope t).parent = none := by
  induction fuel generalizing s with
  | zero =>
    refine ⟨s, rfl, ?_⟩
    cases hp : (h.scope s).parent with
    | none => rfl
    | some p =>
      have hlt : p.index < s.index := hn s p hp
      omega
  | succ fuel ih =>
    rw [outerWithin]
    split
    case h_1 p hp =>
      have hlt : p.index < s.index := hn s p hp
      obtain ⟨t, hlast, hnone⟩ := ih (s := p) (by omega)
      exact ⟨t, by rw [List.getLast?_cons_cons, hlast], hnone⟩
    case h_2 hp => exact ⟨s, rfl, hp⟩

/-- The scopes around a scope are on the heap. -/
theorem Grounded.has_outerWithin (hg : h.Grounded) {fuel : ℕ} {s t : ScopeId}
    (ht : t ∈ h.outerWithin fuel s) : h.Has (.scope t) := by
  induction fuel generalizing s with
  | zero => cases ht
  | succ fuel ih =>
    rw [outerWithin] at ht
    split at ht
    case h_1 p hp =>
      rcases List.mem_cons.mp ht with rfl | ht
      · exact hg.parent hp
      · exact ih ht
    case h_2 => cases ht

/-- **Walks end.** Every walk along a chain of nested scopes ends at an outermost one. -/
theorem Nested.chainEnds (hn : h.Nested) (hg : h.Grounded) {s : ScopeId} (hs : h.Has (.scope s)) :
    h.ChainEnds s where
  older := hn.pairwise_outerWithin h.scopes.size s
  has t ht := by
    rcases List.mem_cons.mp ht with rfl | ht
    · exact hs
    · exact hg.has_outerWithin ht
  outermost := hn.exists_outermost (Nat.le_of_lt hs)

end Heap

end ObjectGraph
