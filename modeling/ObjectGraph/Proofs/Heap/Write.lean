import ObjectGraph.Heap.Cell
import ObjectGraph.Heap.Chain
import Mathlib.Data.Nat.Notation

/-!
# Writing cells

A write changes one cell and nothing else that can be read (`read?_write_self`,
`read?_write_of_ne`): names, parents and receivers stay, so that every look-up along a chain of
scopes finds what it found before (`lookup?_write`).
-/

namespace ObjectGraph

/-- A handle is its position. -/
theorem Handle.ext_index {store : Store} {a b : Handle store} (h : a.index = b.index) : a = b := by
  cases a
  cases b
  exact congrArg Handle.mk h

/-- An element of a changed array. -/
theorem getD_modify {α : Type} (xs : Array α) (i j : ℕ) (f : α → α) (d : α) :
    (xs.modify i f).getD j d = if i = j ∧ j < xs.size then f (xs.getD j d) else xs.getD j d := by
  simp only [Array.getD_eq_getD_getElem?, Array.getElem?_modify]
  by_cases hij : i = j
  · subst hij
    by_cases hi : i < xs.size
    · simp [hi]
    · simp [hi]
  · simp [hij]

/-- An element of an array that has grown at its end. -/
theorem getD_push {α : Type} (xs : Array α) (x d : α) (j : ℕ) :
    (xs.push x).getD j d = if j = xs.size then x else xs.getD j d := by
  simp only [Array.getD_eq_getD_getElem?, Array.getElem?_push]
  split <;> simp

/-- A property without its value: its name, the type that declares it, and its own type. -/
def Slot.frame (s : Slot) : String × TypeId × TypeId := (s.name, s.declaring, s.ty)

namespace Heap

variable (h : Heap)

/-! ## Single records -/

/-- A scope of a heap in which a scope was changed. -/
theorem scope_modifyScope (id id' : ScopeId) (f : Scope → Scope) :
    (h.modifyScope id f).scope id' =
      if id = id' ∧ id'.index < h.scopes.size then f (h.scope id') else h.scope id' := by
  simp only [modifyScope, scope, getD_modify]
  by_cases hid : id = id'
  · subst hid
    simp
  · rw [if_neg (fun hc => hid (Handle.ext_index hc.1)), if_neg (fun hc => hid hc.1)]

/-- An instance of a heap in which an instance was changed. -/
theorem get_modifyInstance (id id' : InstanceId) (f : Instance → Instance) :
    (h.modifyInstance id f).get id' =
      if id = id' ∧ id'.index < h.instances.size then f (h.get id') else h.get id' := by
  simp only [modifyInstance, get, getD_modify]
  by_cases hid : id = id'
  · subst hid
    simp
  · rw [if_neg (fun hc => hid (Handle.ext_index hc.1)), if_neg (fun hc => hid hc.1)]

/-- Writing a cell keeps the number of scopes. -/
@[simp] theorem size_scopes_write (c : Cell) (e : Expr) :
    (h.write c e).scopes.size = h.scopes.size := by
  cases c <;> simp [write, modifyScope, modifyInstance]

/-- Writing a cell keeps the number of instances. -/
@[simp] theorem size_instances_write (c : Cell) (e : Expr) :
    (h.write c e).instances.size = h.instances.size := by
  cases c <;> simp [write, modifyScope, modifyInstance]

/-- Writing a cell keeps the promises. -/
@[simp] theorem promises_write (c : Cell) (e : Expr) : (h.write c e).promises = h.promises := by
  cases c <;> rfl

/-- Writing a cell keeps a scope's parent. -/
@[simp] theorem parent_write (c : Cell) (e : Expr) (s : ScopeId) :
    ((h.write c e).scope s).parent = (h.scope s).parent := by
  cases c with
  | binding id i => simp only [write, scope_modifyScope]; split <;> rfl
  | slot id i => rfl
  | element id i => rfl

/-- Writing a cell keeps a scope's receiver. -/
@[simp] theorem receiver_write (c : Cell) (e : Expr) (s : ScopeId) :
    ((h.write c e).scope s).receiver = (h.scope s).receiver := by
  cases c with
  | binding id i => simp only [write, scope_modifyScope]; split <;> rfl
  | slot id i => rfl
  | element id i => rfl

/-- Writing a cell keeps the generic arguments of scopes. -/
@[simp] theorem typeArgs_write (c : Cell) (e : Expr) (s : ScopeId) :
    ((h.write c e).scope s).typeArgs = (h.scope s).typeArgs := by
  cases c with
  | binding id i => simp only [write, scope_modifyScope]; split <;> rfl
  | slot id i => rfl
  | element id i => rfl

/-- Writing a cell keeps the names that a scope binds. -/
theorem names_write (c : Cell) (e : Expr) (s : ScopeId) :
    ((h.write c e).scope s).bindings.map (·.name) = (h.scope s).bindings.map (·.name) := by
  cases c with
  | binding id i =>
    simp only [write, scope_modifyScope]
    split
    · apply List.ext_getElem?
      intro j
      simp only [List.getElem?_map, List.getElem?_modify]
      split <;> cases (h.scope s).bindings[j]? <;> simp [Binding.withExpr]
    · rfl
  | slot id i => rfl
  | element id i => rfl

/-- Writing a cell keeps an instance's type. -/
@[simp] theorem ty_write (c : Cell) (e : Expr) (id : InstanceId) :
    ((h.write c e).get id).ty = (h.get id).ty := by
  cases c with
  | binding s i => rfl
  | slot o i => simp only [write, get_modifyInstance]; split <;> rfl
  | element o i => simp only [write, get_modifyInstance]; split <;> rfl

/-- Writing a cell keeps an instance's mark of being final. -/
@[simp] theorem sealed_write (c : Cell) (e : Expr) (id : InstanceId) :
    ((h.write c e).get id).sealed = (h.get id).sealed := by
  cases c with
  | binding s i => rfl
  | slot o i => simp only [write, get_modifyInstance]; split <;> rfl
  | element o i => simp only [write, get_modifyInstance]; split <;> rfl

/-- Writing a cell keeps an instance's constructor scopes. -/
@[simp] theorem instance_scopes_write (c : Cell) (e : Expr) (id : InstanceId) :
    ((h.write c e).get id).scopes = (h.get id).scopes := by
  cases c with
  | binding s i => rfl
  | slot o i => simp only [write, get_modifyInstance]; split <;> rfl
  | element o i => simp only [write, get_modifyInstance]; split <;> rfl

/-- Writing a cell keeps all of an instance's properties but for their values. -/
theorem slot_frames_write (c : Cell) (e : Expr) (id : InstanceId) :
    ((h.write c e).get id).slots.map (·.frame) = (h.get id).slots.map (·.frame) := by
  cases c with
  | binding s i => rfl
  | slot o i =>
    simp only [write, get_modifyInstance]
    split
    · apply List.ext_getElem?
      intro j
      simp only [List.getElem?_map, List.getElem?_modify]
      split <;> cases (h.get id).slots[j]? <;> simp [Slot.withExpr, Slot.frame]
    · rfl
  | element o i => simp only [write, get_modifyInstance]; split <;> rfl

/-- Writing a cell other than an element keeps an instance's data. -/
theorem payload_write (c : Cell) (e : Expr) (id : InstanceId)
    (hc : ∀ o i, c ≠ .element o i) : ((h.write c e).get id).payload = (h.get id).payload := by
  cases c with
  | binding s i => rfl
  | slot o i => simp only [write, get_modifyInstance]; split <;> rfl
  | element o i => exact absurd rfl (hc o i)

/-- An unknown handle names an instance without anything in it. -/
theorem get_of_le {id : InstanceId} (hid : h.instances.size ≤ id.index) :
    h.get id = default := by
  simp [get, Array.getD_eq_getD_getElem?, Array.getElem?_eq_none hid]

/-- An unknown handle names a scope without anything in it. -/
theorem scope_of_le {id : ScopeId} (hid : h.scopes.size ≤ id.index) :
    h.scope id = default := by
  simp [scope, Array.getD_eq_getD_getElem?, Array.getElem?_eq_none hid]

/-! ## Cells -/

/-- A written cell holds what was written, if there is such a cell. -/
theorem read?_write_self (c : Cell) (e : Expr) :
    (h.write c e).read? c = (h.read? c).map fun _ => e := by
  cases c with
  | binding s i =>
    simp only [write, read?, scope_modifyScope, true_and]
    split
    case isTrue hs =>
      cases hb : (h.scope s).bindings[i]? <;> simp [hb, Binding.withExpr]
    case isFalse hs =>
      rw [scope_of_le h (Nat.le_of_not_lt hs)]
      rfl
  | slot o i =>
    simp only [write, read?, get_modifyInstance, true_and]
    split
    case isTrue hs =>
      cases hb : (h.get o).slots[i]? <;> simp [hb, Slot.withExpr]
    case isFalse hs =>
      rw [get_of_le h (Nat.le_of_not_lt hs)]
      rfl
  | element o i =>
    simp only [write, read?, get_modifyInstance, true_and]
    split
    case isTrue hs =>
      cases hp : (h.get o).payload with
      | array elements =>
        simp only [Payload.setElement, Payload.elements, List.getElem?_set_self']
        rfl
      | _ => rfl
    case isFalse hs =>
      rw [get_of_le h (Nat.le_of_not_lt hs)]
      rfl

/-- A write changes no other cell. -/
theorem read?_write_of_ne {c c' : Cell} (e : Expr) (hc : c ≠ c') :
    (h.write c e).read? c' = h.read? c' := by
  cases c with
  | binding s i =>
    cases c' with
    | binding s' j =>
      simp only [write, read?, scope_modifyScope]
      split
      case isTrue hs =>
        obtain ⟨rfl, -⟩ := hs
        have hij : i ≠ j := fun hij => hc (by rw [hij])
        simp [hij]
      case isFalse => rfl
    | slot o j => rfl
    | element o j => rfl
  | slot o i =>
    cases c' with
    | binding s' j => rfl
    | slot o' j =>
      simp only [write, read?, get_modifyInstance]
      split
      case isTrue hs =>
        obtain ⟨rfl, -⟩ := hs
        have hij : i ≠ j := fun hij => hc (by rw [hij])
        simp [hij]
      case isFalse => rfl
    | element o' j =>
      -- The elements may be those of the same instance, whose slots are kept apart from them.
      simp only [write, read?, get_modifyInstance]
      split <;> rfl
  | element o i =>
    cases c' with
    | binding s' j => rfl
    | slot o' j =>
      simp only [write, read?, get_modifyInstance]
      split <;> rfl
    | element o' j =>
      simp only [write, read?, get_modifyInstance]
      split
      case isTrue hs =>
        obtain ⟨rfl, -⟩ := hs
        have hij : i ≠ j := fun hij => hc (by rw [hij])
        cases hp : (h.get o).payload with
        | array elements => simp [Payload.setElement, Payload.elements, hij]
        | _ => rfl
      case isFalse => rfl

/-- What is read after a write is what has been written, or has been there before. -/
theorem read?_write_cases {h : Heap} {c c' : Cell} {e e' : Expr}
    (hread : (h.write c e).read? c' = some e') : e' = e ∨ h.read? c' = some e' := by
  by_cases hc : c = c'
  · subst hc
    rw [read?_write_self] at hread
    obtain ⟨_, -, rfl⟩ := Option.map_eq_some_iff.mp hread
    exact .inl rfl
  · exact .inr ((read?_write_of_ne h e hc).symm.trans hread)

/-- Changing an element into itself changes no array. -/
theorem modify_eq_self {α : Type} {xs : Array α} {i : ℕ} {f : α → α} {d : α}
    (hf : f (xs.getD i d) = xs.getD i d) : xs.modify i f = xs := by
  refine Array.ext_getElem? fun j => ?_
  rw [Array.getElem?_modify]
  split
  case isTrue hij =>
    subst hij
    rw [Array.getD_eq_getD_getElem?] at hf
    cases hx : xs[i]? with
    | none => rfl
    | some x => rw [hx] at hf; exact congrArg some hf
  case isFalse => rfl

/-- Changing an element into itself changes no list. -/
theorem list_modify_eq_self {α : Type} {xs : List α} {i : ℕ} {f : α → α} {x : α}
    (hx : xs[i]? = some x) (hf : f x = x) : xs.modify i f = xs := by
  refine List.ext_getElem? fun j => ?_
  rw [List.getElem?_modify]
  split
  case isTrue hij =>
    subst hij
    rw [hx]
    exact congrArg some hf
  case isFalse => cases xs[j]? <;> rfl

/-- Writing what a cell holds changes nothing. -/
theorem write_of_read? {c : Cell} {e : Expr} (he : h.read? c = some e) : h.write c e = h := by
  cases c with
  | binding s i =>
    obtain ⟨b, hb, rfl⟩ := Option.map_eq_some_iff.mp he
    have hsame : (h.scope s).bindings.modify i (·.withExpr b.expr) = (h.scope s).bindings :=
      list_modify_eq_self hb rfl
    simp only [write, modifyScope]
    rw [modify_eq_self (d := default)]
    show { h.scope s with bindings := (h.scope s).bindings.modify i (·.withExpr b.expr) } = h.scope s
    rw [hsame]
  | slot o i =>
    obtain ⟨b, hb, rfl⟩ := Option.map_eq_some_iff.mp he
    have hsame : (h.get o).slots.modify i (·.withExpr b.expr) = (h.get o).slots :=
      list_modify_eq_self hb rfl
    simp only [write, modifyInstance]
    rw [modify_eq_self (d := default)]
    show { h.get o with slots := (h.get o).slots.modify i (·.withExpr b.expr) } = h.get o
    rw [hsame]
  | element o i =>
    have hsame : (h.get o).payload.setElement i e = (h.get o).payload := by
      cases hp : (h.get o).payload with
      | array elements =>
        simp only [read?, hp, Payload.elements] at he
        obtain ⟨hi, rfl⟩ := List.getElem?_eq_some_iff.mp he
        exact congrArg Payload.array (List.set_getElem_self hi)
      | _ => rfl
    simp only [write, modifyInstance]
    rw [modify_eq_self (d := default)]
    show { h.get o with payload := (h.get o).payload.setElement i e } = h.get o
    rw [hsame]

/-! ## Look-ups -/

/-- Chains of scopes depend on parents alone. -/
theorem outerWithin_congr {h h' : Heap} (hp : ∀ s, (h'.scope s).parent = (h.scope s).parent) :
    ∀ (fuel : ℕ) (s : ScopeId), h'.outerWithin fuel s = h.outerWithin fuel s
  | 0, _ => rfl
  | fuel + 1, s => by
    simp only [outerWithin, hp]
    cases (h.scope s).parent with
    | none => rfl
    | some parent => simp only [outerWithin_congr hp fuel parent]

/-- Writing a cell keeps every chain of scopes. -/
theorem chain_write (c : Cell) (e : Expr) (s : ScopeId) :
    (h.write c e).chain s = h.chain s := by
  simp only [chain, size_scopes_write]
  rw [outerWithin_congr (h.parent_write c e)]

/-- The position of a name among a scope's bindings depends on their names alone. -/
theorem findIdx?_name_congr {s s' : Scope} (hn : s'.bindings.map (·.name) = s.bindings.map (·.name))
    (name : String) :
    s'.bindings.findIdx? (·.name == name) = s.bindings.findIdx? (·.name == name) := by
  have hmap (b : List Binding) :
      b.findIdx? (·.name == name) = (b.map (·.name)).findIdx? (· == name) := by
    rw [List.findIdx?_map]
    rfl
  rw [hmap, hmap, hn]

/-- Writing a cell keeps what every name leads to. -/
theorem lookup?_write (c : Cell) (e : Expr) (s : ScopeId) (name : String) :
    (h.write c e).lookup? s name = h.lookup? s name := by
  simp only [lookup?, chain_write]
  congr 1
  funext s'
  rw [findIdx?_name_congr (h.names_write c e s')]

/-- Writing a cell keeps every scope's nearest receiver. -/
theorem receiver?_write (c : Cell) (e : Expr) (s : ScopeId) :
    (h.write c e).receiver? s = h.receiver? s := by
  simp only [receiver?, chain_write, receiver_write]

/-- Look-ups depend on the scopes alone. -/
theorem lookup?_of_scopes_eq (h' : Heap) (hs : h'.scopes = h.scopes) (s : ScopeId)
    (name : String) : h'.lookup? s name = h.lookup? s name := by
  have hscope (s' : ScopeId) : h'.scope s' = h.scope s' := by simp only [scope, hs]
  simp only [lookup?, chain, hs, hscope]
  rw [outerWithin_congr fun s' => congrArg Scope.parent (hscope s')]

/-- Receivers depend on the scopes alone. -/
theorem receiver?_of_scopes_eq (h' : Heap) (hs : h'.scopes = h.scopes) (s : ScopeId) :
    h'.receiver? s = h.receiver? s := by
  have hscope (s' : ScopeId) : h'.scope s' = h.scope s' := by simp only [scope, hs]
  simp only [receiver?, chain, hs, hscope]
  rw [outerWithin_congr fun s' => congrArg Scope.parent (hscope s')]

end Heap

end ObjectGraph
