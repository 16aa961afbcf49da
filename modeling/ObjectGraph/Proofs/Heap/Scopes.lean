import ObjectGraph.Proofs.Heap.Extension

/-!
# New scopes

A scope that is added to a heap extends it: what a name leads to from the scopes that were there
stays what it was (`extends_allocScope`), because a search along a chain that has found something
does not come to where the chain has grown (`findSome?_chain`). From the new scope names lead to its
own bindings first, and then to where they led from its parent.
-/

namespace ObjectGraph.Heap

variable (h : Heap)

/-- A scope of a heap that has got a new one. -/
theorem scope_allocScope (sc : Scope) (s : ScopeId) :
    (h.allocScope sc).2.scope s = if s.index = h.scopes.size then sc else h.scope s := by
  simp only [allocScope, scope, getD_push]

/-- A new scope leaves the old ones as they are. -/
theorem scope_allocScope_of_ne (sc : Scope) {s : ScopeId} (hs : s.index ≠ h.scopes.size) :
    (h.allocScope sc).2.scope s = h.scope s := by
  rw [scope_allocScope, if_neg hs]

/-- The new scope. -/
theorem scope_allocScope_self (sc : Scope) :
    (h.allocScope sc).2.scope ⟨h.scopes.size⟩ = sc := by
  rw [scope_allocScope, if_pos rfl]

/-- A new scope leaves the cells as they are, its own apart. -/
theorem read?_allocScope_of_ne (sc : Scope) {c : Cell}
    (hc : ∀ i, c ≠ .binding ⟨h.scopes.size⟩ i) :
    (h.allocScope sc).2.read? c = h.read? c := by
  cases c with
  | binding s i =>
    have hs : s.index ≠ h.scopes.size := fun heq => hc i (by rw [← heq])
    simp only [read?, scope_allocScope_of_ne h sc hs]
  | slot o i => rfl
  | element o i => rfl

/-- The cells of the new scope. -/
theorem read?_allocScope_self (sc : Scope) (i : ℕ) :
    (h.allocScope sc).2.read? (.binding ⟨h.scopes.size⟩ i) =
      sc.bindings[i]?.map (·.expr) := by
  simp only [read?, scope_allocScope_self]

/-- What is read after a scope has been added is in it, or has been there before. -/
theorem read?_allocScope_cases {h : Heap} {sc : Scope} {c : Cell} {e : Expr}
    (hread : (h.allocScope sc).2.read? c = some e) :
    (∃ b ∈ sc.bindings, b.expr = e) ∨ h.read? c = some e := by
  by_cases hc : ∃ i, c = .binding ⟨h.scopes.size⟩ i
  · obtain ⟨i, rfl⟩ := hc
    rw [read?_allocScope_self] at hread
    obtain ⟨b, hb, rfl⟩ := Option.map_eq_some_iff.mp hread
    exact .inl ⟨b, List.mem_of_getElem? hb, rfl⟩
  · rw [read?_allocScope_of_ne h sc fun i heq => hc ⟨i, heq⟩] at hread
    exact .inr hread

/-- A cell of the heap is not one of the new scope. -/
theorem ne_of_read? {c : Cell} {e : Expr} (hc : h.read? c = some e) (i : ℕ) :
    c ≠ .binding ⟨h.scopes.size⟩ i := by
  rintro rfl
  have hempty : h.scope ⟨h.scopes.size⟩ = default := h.scope_of_le (Nat.le_refl h.scopes.size)
  rw [read?, hempty] at hc
  cases hc

section Search

variable {h} {β : Type} {b : β}

/-- A search along a chain finds the same after a new scope has been added, and it may go farther.
The search must find nothing in an empty scope, because a chain may end in a scope that is not on
the heap. -/
theorem findSome?_chain (find : ScopeId → Scope → Option β) (hempty : ∀ s, find s default = none)
    (sc : Scope) {fuel fuel' : ℕ} (hfuel : fuel ≤ fuel') {s : ScopeId}
    (hfound : (s :: h.outerWithin fuel s).findSome? (fun s => find s (h.scope s)) = some b) :
    (s :: (h.allocScope sc).2.outerWithin fuel' s).findSome?
      (fun s => find s ((h.allocScope sc).2.scope s)) = some b := by
  induction fuel generalizing fuel' s with
  | zero =>
    rw [outerWithin, List.findSome?_cons, List.findSome?_nil] at hfound
    have hs : s.index ≠ h.scopes.size := by
      intro heq
      rw [scope_of_le h (Nat.le_of_eq heq.symm), hempty] at hfound
      cases hfound
    rw [List.findSome?_cons, scope_allocScope_of_ne h sc hs]
    cases hhere : find s (h.scope s) with
    | some b' => rw [hhere] at hfound; exact hfound
    | none => rw [hhere] at hfound; cases hfound
  | succ fuel ih =>
    obtain ⟨fuel', rfl⟩ : ∃ n, fuel' = n + 1 := ⟨fuel' - 1, by omega⟩
    rw [List.findSome?_cons] at hfound
    have hs : s.index ≠ h.scopes.size := by
      intro heq
      rw [outerWithin, scope_of_le h (Nat.le_of_eq heq.symm), hempty] at hfound
      cases hfound
    rw [List.findSome?_cons, scope_allocScope_of_ne h sc hs]
    cases hhere : find s (h.scope s) with
    | some b' => rw [hhere] at hfound; exact hfound
    | none =>
      -- Nothing is found here, so the search goes on with the parent, in both heaps alike.
      simp only [hhere, outerWithin, scope_allocScope_of_ne h sc hs] at hfound ⊢
      cases hparent : (h.scope s).parent with
      | none => rw [hparent] at hfound; cases hfound
      | some parent =>
        rw [hparent] at hfound
        exact ih (by omega) hfound

end Search

/-- The binding of a name in a scope. -/
def bound? (name : String) (s : ScopeId) (sc : Scope) : Option BindingRef :=
  (sc.bindings.findIdx? (·.name == name)).map (⟨s, ·⟩)

/-- A new scope extends a heap. -/
theorem extends_allocScope (sc : Scope) : h.Extends (h.allocScope sc).2 where
  lookup hl := by
    have hsize : h.scopes.size ≤ (h.allocScope sc).2.scopes.size := by simp [allocScope]
    exact findSome?_chain (bound? _) (fun _ => rfl) sc hsize hl
  receiver hr := by
    have hsize : h.scopes.size ≤ (h.allocScope sc).2.scopes.size := by simp [allocScope]
    exact findSome?_chain (fun _ sc => sc.receiver) (fun _ => rfl) sc hsize hr
  size := Nat.le_refl _
  ty _ := rfl
  payload _ := rfl
  frames _ := rfl
  scopes _ := rfl
  isSealed hs := hs

/-- A name that the new scope binds leads to the new scope. -/
theorem lookup?_allocScope_self {sc : Scope} {name : String} {i : ℕ}
    (hi : sc.bindings.findIdx? (·.name == name) = some i) :
    (h.allocScope sc).2.lookup? ⟨h.scopes.size⟩ name = some ⟨⟨h.scopes.size⟩, i⟩ := by
  rw [lookup?, chain, List.findSome?_cons, scope_allocScope_self, hi]
  rfl

/-- Any other name leads where it leads from the parent. -/
theorem lookup?_allocScope_parent {sc : Scope} {parent : ScopeId} {name : String}
    {found : BindingRef} (hparent : sc.parent = some parent)
    (hnone : sc.bindings.findIdx? (·.name == name) = none)
    (hl : h.lookup? parent name = some found) :
    (h.allocScope sc).2.lookup? ⟨h.scopes.size⟩ name = some found := by
  have hsize : (h.allocScope sc).2.scopes.size = h.scopes.size + 1 := by simp [allocScope]
  rw [lookup?, chain, List.findSome?_cons, scope_allocScope_self, hnone, hsize, outerWithin,
    scope_allocScope_self, hparent]
  exact findSome?_chain (bound? name) (fun _ => rfl) sc (Nat.le_refl _) hl

/-- The binding that a name leads to has this name. -/
theorem name_of_lookup? {s : ScopeId} {name : String} {found : BindingRef}
    (hl : h.lookup? s name = some found) :
    (h.scope found.scope).bindings[found.index]?.map (·.name) = some name := by
  obtain ⟨s', -, hs'⟩ := List.exists_of_findSome?_eq_some hl
  obtain ⟨i, hi, rfl⟩ := Option.map_eq_some_iff.mp hs'
  obtain ⟨hlt, hname, -⟩ := List.findIdx?_eq_some_iff_getElem.mp hi
  rw [List.getElem?_eq_getElem hlt, Option.map_some, eq_of_beq hname]

end ObjectGraph.Heap
