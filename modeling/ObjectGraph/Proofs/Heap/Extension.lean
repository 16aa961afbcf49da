import ObjectGraph.Proofs.Heap.Write

/-!
# Extensions of a heap

A heap is extended by what evaluation does to it: writing cells, adding instances and marking
instances as final. What can be found by name stays where it is, and scalars stay as they are.
`Grows` is the extension that a pass makes by itself, which only adds scalars.
-/

namespace ObjectGraph.Heap

variable (h : Heap)

/-! ## Extensions -/

/-- Everything that can be found in `h` is found in `h'` as well: names and receivers lead where
they led, and no instance has lost its type, its data, its property names or its mark of being
final. What cells hold may differ. -/
structure Extends (h h' : Heap) : Prop where
  /-- Names that are bound stay bound to the same cells. -/
  lookup : ∀ {s name found}, h.lookup? s name = some found → h'.lookup? s name = some found
  /-- Receivers stay. -/
  receiver : ∀ {s id}, h.receiver? s = some id → h'.receiver? s = some id
  /-- No instance is dropped. -/
  size : h.instances.size ≤ h'.instances.size
  /-- Types stay. -/
  ty : ∀ {id}, id.index < h.instances.size → (h'.get id).ty = (h.get id).ty
  /-- Data stay. -/
  payload : ∀ {id}, id.index < h.instances.size → (h'.get id).payload = (h.get id).payload
  /-- Properties stay, but for their values. -/
  frames : ∀ {id}, id.index < h.instances.size →
    (h'.get id).slots.map (·.frame) = (h.get id).slots.map (·.frame)
  /-- Constructor scopes stay. -/
  scopes : ∀ {id}, id.index < h.instances.size → (h'.get id).scopes = (h.get id).scopes
  /-- What is final stays final. -/
  isSealed : ∀ {id}, (h.get id).sealed = true → (h'.get id).sealed = true

namespace Extends

variable {h}

/-- Every heap extends itself. -/
theorem refl : h.Extends h :=
  ⟨id, id, Nat.le_refl _, fun _ => rfl, fun _ => rfl, fun _ => rfl, fun _ => rfl, id⟩

/-- Property names stay. -/
theorem names {h' : Heap} (hx : h.Extends h') {id : InstanceId}
    (hid : id.index < h.instances.size) :
    (h'.get id).slots.map (·.name) = (h.get id).slots.map (·.name) := by
  have hf := congrArg (List.map Prod.fst) (hx.frames hid)
  simp only [List.map_map] at hf
  exact hf

/-- Extensions compose. -/
theorem trans {h' h'' : Heap} (a : h.Extends h') (b : h'.Extends h'') : h.Extends h'' where
  lookup hl := b.lookup (a.lookup hl)
  receiver hr := b.receiver (a.receiver hr)
  size := Nat.le_trans a.size b.size
  ty hid := (b.ty (Nat.lt_of_lt_of_le hid a.size)).trans (a.ty hid)
  payload hid := (b.payload (Nat.lt_of_lt_of_le hid a.size)).trans (a.payload hid)
  frames hid := (b.frames (Nat.lt_of_lt_of_le hid a.size)).trans (a.frames hid)
  scopes hid := (b.scopes (Nat.lt_of_lt_of_le hid a.size)).trans (a.scopes hid)
  isSealed hs := b.isSealed (a.isSealed hs)

end Extends

/-- Writing a cell that is not an element extends a heap. -/
theorem extends_write (c : Cell) (e : Expr) (hc : ∀ o i, c ≠ .element o i) :
    h.Extends (h.write c e) where
  lookup hl := by rw [lookup?_write, hl]
  receiver hr := by rw [receiver?_write, hr]
  size := Nat.le_of_eq (h.size_instances_write c e).symm
  ty _ := ty_write h c e _
  payload _ := payload_write h c e _ hc
  frames _ := slot_frames_write h c e _
  scopes _ := instance_scopes_write h c e _
  isSealed hs := by rw [sealed_write, hs]

/-- An instance of a heap that has got a new one. -/
theorem get_allocInstance (i : Instance) (id : InstanceId) :
    (h.allocInstance i).2.get id = if id.index = h.instances.size then i else h.get id := by
  simp only [allocInstance, get, getD_push]

/-- A new instance leaves the old ones as they are. -/
theorem get_allocInstance_of_lt (i : Instance) {id : InstanceId}
    (hid : id.index < h.instances.size) : (h.allocInstance i).2.get id = h.get id := by
  rw [get_allocInstance, if_neg (Nat.ne_of_lt hid)]

/-- A new instance extends a heap. -/
theorem extends_allocInstance (i : Instance) : h.Extends (h.allocInstance i).2 where
  lookup hl := (h.lookup?_of_scopes_eq (h.allocInstance i).2 rfl _ _).trans hl
  receiver hr := (h.receiver?_of_scopes_eq (h.allocInstance i).2 rfl _).trans hr
  size := by simp [allocInstance]
  ty hid := by rw [get_allocInstance_of_lt h i hid]
  payload hid := by rw [get_allocInstance_of_lt h i hid]
  frames hid := by rw [get_allocInstance_of_lt h i hid]
  scopes hid := by rw [get_allocInstance_of_lt h i hid]
  isSealed {id} hs := by
    have hid : id.index < h.instances.size := by
      refine Nat.lt_of_not_le fun hle => ?_
      rw [get_of_le h hle] at hs
      cases hs
    rw [get_allocInstance_of_lt h i hid, hs]

/-- The heap after an instance has been marked as final. -/
def markSealed (o : InstanceId) : Heap := h.modifyInstance o fun i => { i with sealed := true }

/-- Marking an instance as final extends a heap. -/
theorem extends_markSealed (o : InstanceId) : h.Extends (h.markSealed o) where
  lookup hl := (h.lookup?_of_scopes_eq (h.markSealed o) rfl _ _).trans hl
  receiver hr := (h.receiver?_of_scopes_eq (h.markSealed o) rfl _).trans hr
  size := by simp [markSealed, modifyInstance]
  ty _ := by rw [markSealed, get_modifyInstance]; split <;> rfl
  payload _ := by rw [markSealed, get_modifyInstance]; split <;> rfl
  frames _ := by rw [markSealed, get_modifyInstance]; split <;> rfl
  scopes _ := by rw [markSealed, get_modifyInstance]; split <;> rfl
  isSealed hs := by
    rw [markSealed, get_modifyInstance]
    split
    · rfl
    · exact hs

/-- An instance that has been marked as final. -/
theorem get_markSealed_self {o : InstanceId} (ho : o.index < h.instances.size) :
    (h.markSealed o).get o = { h.get o with sealed := true } := by
  rw [markSealed, get_modifyInstance, if_pos ⟨rfl, ho⟩]

/-- Marking an instance as final twice is marking it once. -/
theorem markSealed_markSealed (o : InstanceId) :
    (h.markSealed o).markSealed o = h.markSealed o := by
  simp only [markSealed, modifyInstance, mk.injEq, true_and, and_true]
  refine Array.ext_getElem? fun i => ?_
  simp only [Array.getElem?_modify]
  split
  · cases h.instances[i]? <;> rfl
  · rfl

/-- Marking an instance as final changes no cell. -/
theorem read?_markSealed (o : InstanceId) (c : Cell) : (h.markSealed o).read? c = h.read? c := by
  cases c with
  | binding s i => rfl
  | slot id i => simp only [read?, markSealed, get_modifyInstance]; split <;> rfl
  | element id i => simp only [read?, markSealed, get_modifyInstance]; split <;> rfl

/-! ## Scalars -/

/-- The instance carries the scalar and nothing else, and is final. -/
structure IsScalar (h : Heap) (id : InstanceId) (v : Scalar) : Prop where
  /-- Its type is the scalar's. -/
  ty : (h.get id).ty = v.ty
  /-- Its data are the scalar. -/
  payload : (h.get id).payload = .scalar v
  /-- It is final. -/
  isSealed : (h.get id).sealed = true
  /-- It has no properties. -/
  slots : (h.get id).slots = []

namespace IsScalar

variable {h} {id : InstanceId} {v : Scalar}

/-- An instance of a scalar is on the heap. -/
theorem lt_size (hv : h.IsScalar id v) : id.index < h.instances.size := by
  refine Nat.lt_of_not_le fun hle => ?_
  have hp := hv.payload
  rw [get_of_le h hle] at hp
  cases hp

/-- An instance of a scalar stays one in every extension. -/
theorem extend {h' : Heap} (hv : h.IsScalar id v) (hx : h.Extends h') : h'.IsScalar id v where
  ty := (hx.ty hv.lt_size).trans hv.ty
  payload := (hx.payload hv.lt_size).trans hv.payload
  isSealed := hx.isSealed hv.isSealed
  slots := by
    have hn := hx.frames hv.lt_size
    rw [hv.slots] at hn
    exact List.map_eq_nil_iff.mp hn

/-- A new instance for a scalar is an instance of it. -/
theorem of_alloc (v : Scalar) :
    (h.allocInstance (.ofPayload v.ty (.scalar v))).2.IsScalar ⟨h.instances.size⟩ v := by
  constructor <;> rw [get_allocInstance, if_pos rfl] <;> rfl

end IsScalar

/-- A heap to which scalars have been added one after the other. -/
inductive Grows (h : Heap) : Heap → Prop where
  /-- Nothing has been added. -/
  | refl : Grows h h
  /-- One more scalar has been added. -/
  | scalar {h' : Heap} (v : Scalar) :
    Grows h h' → Grows h (h'.allocInstance (.ofPayload v.ty (.scalar v))).2

namespace Grows

variable {h}

/-- Growth composes. -/
theorem trans {h' h'' : Heap} (a : h.Grows h') (b : h'.Grows h'') : h.Grows h'' := by
  induction b with
  | refl => exact a
  | scalar v _ ih => exact .scalar v ih

/-- Added scalars extend a heap. -/
theorem extension {h' : Heap} (g : h.Grows h') : h.Extends h' := by
  induction g with
  | refl => exact .refl
  | scalar v _ ih => exact ih.trans (extends_allocInstance _ _)

/-- Added scalars leave the scopes alone. -/
theorem scopes {h' : Heap} (g : h.Grows h') : h'.scopes = h.scopes := by
  induction g with
  | refl => rfl
  | scalar v _ ih => exact ih

/-- Added scalars leave the promises alone. -/
theorem promises {h' : Heap} (g : h.Grows h') : h'.promises = h.promises := by
  induction g with
  | refl => rfl
  | scalar v _ ih => exact ih

/-- Each instance is an old one or a new scalar. -/
theorem get {h' : Heap} (g : h.Grows h') (id : InstanceId) :
    h'.get id = h.get id ∨ h.instances.size ≤ id.index ∧ ∃ v, h'.IsScalar id v := by
  induction g with
  | refl => exact .inl rfl
  | @scalar h' v g ih =>
    by_cases hid : id.index = h'.instances.size
    · right
      obtain rfl : id = ⟨h'.instances.size⟩ := Handle.ext_index hid
      exact ⟨g.extension.size, v, .of_alloc v⟩
    · have hget : (h'.allocInstance (.ofPayload v.ty (.scalar v))).2.get id = h'.get id := by
        rw [get_allocInstance, if_neg hid]
      rcases ih with h0 | ⟨hle, v', hv'⟩
      · exact .inl (hget.trans h0)
      · exact .inr ⟨hle, v', hv'.extend (extends_allocInstance _ _)⟩

/-- Added scalars leave every cell as it is. -/
theorem read? {h' : Heap} (g : h.Grows h') (c : Cell) : h'.read? c = h.read? c := by
  cases c with
  | binding s i => simp only [Heap.read?, Heap.scope, g.scopes]
  | slot o i =>
    rcases g.get o with hget | ⟨hle, v, hv⟩
    · simp only [Heap.read?, hget]
    · simp only [Heap.read?, get_of_le h hle, hv.slots]
      rfl
  | element o i =>
    rcases g.get o with hget | ⟨hle, v, hv⟩
    · simp only [Heap.read?, hget]
    · simp only [Heap.read?, get_of_le h hle, hv.payload]
      rfl

end Grows

end ObjectGraph.Heap
