import ObjectGraph.Proofs.Heap.Scopes
import ObjectGraph.Proofs.Sweep

/-!
# Evaluating one plain object

Worlds in which a single plain object is evaluated: besides the object there are scopes and
scalars, and no promises (`Heap.Alone`). Nothing but the object itself is ever discovered there to
be evaluated and sealed, and it is sealed in the sweep in which the last of its properties has
become terminal.
-/

namespace ObjectGraph

namespace Heap

/-- A node is the object, a scalar or a scope. -/
def Belongs (h : Heap) (root : InstanceId) : Node → Prop
  | .scope _ => True
  | .object id => id = root ∨ ∃ v, h.IsScalar id v
  | .promise _ => False

/-- An expression mentions nothing but the object, scalars and scopes. -/
def Confined (h : Heap) (root : InstanceId) (e : Expr) : Prop :=
  ∀ n ∈ h.handles e, h.Belongs root n

/-- The object is the only one on the heap that needs to be evaluated. -/
structure Alone (h : Heap) (root : InstanceId) : Prop where
  /-- The object carries no data besides its properties. -/
  payload : (h.get root).payload = .none
  /-- It is the receiver in every scope that has one. -/
  receiver : ∀ {s id}, (h.scope s).receiver = some id → id = root
  /-- There are no promises. -/
  promises : h.promises = #[]
  /-- What cells hold is confined to the object. -/
  confined : ∀ {c e}, h.read? c = some e → h.Confined root e

variable {h h' : Heap} {root : InstanceId} {e : Expr}

/-- What belongs to an object does so in every extension. -/
theorem Belongs.extend {n : Node} (hn : h.Belongs root n) (hx : h.Extends h') :
    h'.Belongs root n := by
  cases n with
  | scope id => trivial
  | object id =>
    rcases hn with rfl | ⟨v, hv⟩
    · exact .inl rfl
    · exact .inr ⟨v, hv.extend hx⟩
  | promise id => exact hn.elim

/-- What a binary operation mentions. -/
theorem handles_binary (op : BinaryOp) (lhs rhs : Expr) (ty : TypeId) :
    h.handles (.binary op lhs rhs ty) = h.handles lhs ++ h.handles rhs := by
  simp only [handles, Expr.preorder, List.flatMap_cons, List.flatMap_append]
  rfl

/-- What an expression in a scope of its own mentions. -/
theorem handles_scoped (s : ScopeId) (body : Expr) :
    h.handles (.scoped s body) = .scope s :: h.handles body :=
  rfl

/-- What an expression mentions depends on the promises alone. -/
theorem handles_congr (hp : h'.promises = h.promises) (e : Expr) : h'.handles e = h.handles e := by
  have hown (e : Expr) : h'.ownHandles e = h.ownHandles e := by
    cases e with
    | promise id ty => simp only [ownHandles, resultHandles, promise, hp]
    | _ => rfl
  simp only [handles, funext hown]

/-- A confined expression is confined in every extension with the same promises. -/
theorem Confined.extend (hc : h.Confined root e) (hx : h.Extends h')
    (hp : h'.promises = h.promises) : h'.Confined root e := by
  intro n hn
  rw [handles_congr hp] at hn
  exact (hc n hn).extend hx

/-- The instance that a terminal expression refers to is mentioned by it. -/
theorem mem_handles_of_referent {r : InstanceId} (hr : e.referent = some r) :
    .object r ∈ h.handles e := by
  cases e with
  | object id =>
    obtain rfl : id = r := Option.some.inj hr
    exact List.mem_singleton_self _
  | function m id =>
    obtain rfl : id = r := Option.some.inj hr
    exact List.mem_singleton_self _
  | _ => cases hr

/-- Supported instances are all kept. -/
theorem largestSupported_of_supported {ids : List InstanceId} (fuel : ℕ)
    (hs : ∀ id ∈ ids, h.isSupported ids id = true) : h.largestSupported fuel ids = ids := by
  cases fuel with
  | zero => rfl
  | succ fuel =>
    simp only [largestSupported, List.filter_eq_self.mpr hs, if_true]

namespace Alone

/-- The values of the object are what its property cells hold. -/
theorem values_all (ha : h.Alone root) :
    (h.get root).values.all Expr.isTerminal = true ↔
      ∀ i e, h.read? (.slot root i) = some e → e.isTerminal = true := by
  simp only [Instance.values, ha.payload, Payload.elements, List.append_nil, List.all_eq_true,
    List.mem_map, read?]
  constructor
  · intro hall i e he
    obtain ⟨slot, hslot, rfl⟩ := Option.map_eq_some_iff.mp he
    exact hall _ ⟨slot, List.mem_of_getElem? hslot, rfl⟩
  · rintro hall e ⟨slot, hslot, rfl⟩
    obtain ⟨i, hi⟩ := List.mem_iff_getElem?.mp hslot
    exact hall i _ (by rw [hi]; rfl)

/-- What evaluation can reach from the object belongs to it. -/
theorem belongs_of_reaches (ha : h.Alone root) {n : Node} (hn : h.Reaches (.object root) n) :
    h.Belongs root n := by
  -- Scopes lead to scopes and to what bindings mention, the object to what its properties mention,
  -- and scalars to nothing, since they are final.
  induction hn with
  | refl => exact .inl rfl
  | @tail a b _ hab ih =>
    cases a with
    | scope s =>
      rcases List.mem_append.mp hab with hab | hab
      · rcases List.mem_append.mp hab with hab | hab
        · obtain ⟨parent, -, rfl⟩ := List.mem_map.mp hab
          trivial
        · obtain ⟨id, hid, rfl⟩ := List.mem_map.mp hab
          exact .inl (ha.receiver (Option.mem_toList.mp hid))
      · obtain ⟨binding, hbinding, hb⟩ := List.mem_flatMap.mp hab
        obtain ⟨i, hi⟩ := List.mem_iff_getElem?.mp hbinding
        exact ha.confined (c := .binding s i) (by rw [read?, hi]; rfl) b hb
    | object id =>
      simp only [leads] at hab
      split at hab
      case isTrue => cases hab
      case isFalse hs =>
        rcases ih with rfl | ⟨v, hv⟩
        · rcases List.mem_append.mp hab with hab | hab
          · obtain ⟨entry, -, rfl⟩ := List.mem_map.mp hab
            trivial
          · obtain ⟨value, hvalue, hb⟩ := List.mem_flatMap.mp hab
            simp only [Instance.values, ha.payload, Payload.elements, List.append_nil] at hvalue
            obtain ⟨slot, hslot, rfl⟩ := List.mem_map.mp hvalue
            obtain ⟨i, hi⟩ := List.mem_iff_getElem?.mp hslot
            exact ha.confined (c := .slot id i) (by rw [read?, hi]; rfl) b hb
        · exact absurd hv.isSealed hs
    | promise id => cases hab

/-- Only the object is discovered as an instance, and only until it is final. -/
theorem mem_discover (ha : h.Alone root) {id : InstanceId} :
    id ∈ (h.discover root).instances.toList ↔ id = root ∧ (h.get root).sealed = false := by
  rw [Listing.mem_toList]
  show (h.discover root).has (.object id) = true ↔ _
  rw [has_discover_iff, isOpen, Bool.not_eq_true']
  constructor
  · rintro ⟨hreach, hopen⟩
    rcases ha.belongs_of_reaches hreach with rfl | ⟨v, hv⟩
    · exact ⟨rfl, hopen⟩
    · rw [hv.isSealed] at hopen
      cases hopen
  · rintro ⟨rfl, hopen⟩
    exact ⟨.refl, hopen⟩

/-- Added scalars leave the object alone. -/
theorem grow (ha : h.Alone root) (hroot : root.index < h.instances.size) (g : h.Grows h') :
    h'.Alone root where
  payload := (g.extension.payload hroot).trans ha.payload
  receiver {s id} hr := by
    simp only [scope, g.scopes] at hr
    exact ha.receiver hr
  promises := g.promises.trans ha.promises
  confined hc := (ha.confined ((g.read? _).symm.trans hc)).extend g.extension g.promises

/-- Writing a confined expression into a cell leaves the object alone. -/
theorem write (ha : h.Alone root) {c : Cell} (hc : ∀ o i, c ≠ .element o i)
    (he : h.Confined root e) : (h.write c e).Alone root where
  payload := (payload_write h c e root hc).trans ha.payload
  receiver hr := ha.receiver ((receiver_write h c e _).symm.trans hr)
  promises := (promises_write h c e).trans ha.promises
  confined {c' e'} hread := by
    have hx := extends_write h c e hc
    rcases read?_write_cases hread with rfl | hread
    · exact he.extend hx (promises_write h c _)
    · exact (ha.confined hread).extend hx (promises_write h c e)

/-- A new scope leaves the object alone if it holds confined expressions. -/
theorem allocScope (ha : h.Alone root) {sc : Scope} (hr : ∀ id, sc.receiver = some id → id = root)
    (hb : ∀ b ∈ sc.bindings, h.Confined root b.expr) : (h.allocScope sc).2.Alone root where
  payload := ha.payload
  receiver {s id} hreceiver := by
    by_cases hs : s.index = h.scopes.size
    · rw [scope_allocScope, if_pos hs] at hreceiver
      exact hr id hreceiver
    · rw [scope_allocScope_of_ne h sc hs] at hreceiver
      exact ha.receiver hreceiver
  promises := ha.promises
  confined {c e} hread := by
    have hx := extends_allocScope h sc
    rcases read?_allocScope_cases hread with ⟨b, hmem, rfl⟩ | hread
    · exact (hb b hmem).extend hx rfl
    · exact (ha.confined hread).extend hx rfl

/-- Marking the object as final leaves it alone. -/
theorem markSealed (ha : h.Alone root) : (h.markSealed root).Alone root where
  payload := by
    rw [Heap.markSealed, get_modifyInstance]
    split <;> exact ha.payload
  receiver hr := ha.receiver hr
  promises := ha.promises
  confined hc := by
    rw [read?_markSealed] at hc
    exact (ha.confined hc).extend (extends_markSealed h root) rfl

/-! ## Sealing -/

variable {ids : List InstanceId}

/-- The object can be sealed once all its values are terminal. -/
theorem sealable (ha : h.Alone root) (hids : ∀ id ∈ ids, id = root)
    (hopen : (h.get root).sealed = false) :
    h.sealable ids = if (h.get root).values.all Expr.isTerminal then ids else [] := by
  have hfinished : h.isFinished root = (h.get root).values.all Expr.isTerminal := by
    simp only [isFinished, hopen, Bool.not_false, Bool.true_and]
  simp only [Heap.sealable]
  cases hterm : (h.get root).values.all Expr.isTerminal with
  | false =>
    have hnone : ids.filter h.isFinished = [] :=
      List.filter_eq_nil_iff.mpr fun id hid => by
        rw [hids id hid, hfinished, hterm]
        exact Bool.false_ne_true
    rw [hnone]
    rfl
  | true =>
    have hall : ids.filter h.isFinished = ids :=
      List.filter_eq_self.mpr fun id hid => by rw [hids id hid, hfinished, hterm]
    rw [hall, if_pos rfl]
    -- The values refer to the object itself or to scalars, all of which support it.
    refine largestSupported_of_supported _ fun id hid => ?_
    obtain rfl := hids id hid
    refine List.all_eq_true.mpr fun value hvalue => ?_
    cases hr : value.referent with
    | none => rfl
    | some r =>
      simp only [Instance.values, ha.payload, Payload.elements, List.append_nil] at hvalue
      obtain ⟨slot, hslot, rfl⟩ := List.mem_map.mp hvalue
      obtain ⟨i, hi⟩ := List.mem_iff_getElem?.mp hslot
      have hconf : h.Confined id slot.expr := ha.confined (c := .slot id i) (by rw [read?, hi]; rfl)
      rcases hconf _ (mem_handles_of_referent hr) with rfl | ⟨v, hv⟩
      · simp [hid]
      · simp [hv.isSealed]

end Alone

end Heap

namespace Effect

variable {σ : Type} {natives : Natives σ} {root : InstanceId} {ids : List InstanceId}

/-- Sealing a plain object marks it as final, and does nothing else. -/
theorem sealOne_apply {w : World σ}
    (hplain : natives.nearest? w.types (w.heap.get root).ty = none) :
    sealOne natives root w = .ok () { w with heap := w.heap.markSealed root } := by
  unfold sealOne
  rw [bind_of_ok (instanceOf_apply root w), bind_of_ok (modifyHeap_apply _ w),
    bind_of_ok (pluginFor_apply natives _ _)]
  simp only [Natives.pluginFor, hplain]
  rfl

/-- Sealing a plain object as often as it is listed. -/
theorem sealEach_apply {w : World σ}
    (hplain : natives.nearest? w.types (w.heap.get root).ty = none)
    (hids : ∀ id ∈ ids, id = root) (hne : ids ≠ []) :
    sealEach natives ids w = .ok ids.length { w with heap := w.heap.markSealed root } := by
  induction ids generalizing w with
  | nil => exact absurd rfl hne
  | cons id ids ih =>
    obtain rfl := hids id List.mem_cons_self
    unfold sealEach
    rw [bind_of_ok (sealOne_apply hplain)]
    cases ids with
    | nil => rfl
    | cons id' ids =>
      have hty : ((w.heap.markSealed id).get id).ty = (w.heap.get id).ty := by
        rw [Heap.markSealed, Heap.get_modifyInstance]
        split <;> rfl
      have hrest := ih (w := { w with heap := w.heap.markSealed id })
        (by rw [hty]; exact hplain) (fun id' hid' => hids id' (List.mem_cons_of_mem _ hid'))
        (List.cons_ne_nil _ _)
      rw [bind_of_ok hrest, w.heap.markSealed_markSealed id]
      rfl

/-- A plain object that is alone is sealed once all its values are terminal. -/
theorem ends_sealDiscovered {w : World σ} (ha : w.heap.Alone root)
    (hplain : natives.nearest? w.types (w.heap.get root).ty = none)
    (hids : ∀ id ∈ ids, id = root) (hopen : ids ≠ [] → (w.heap.get root).sealed = false) :
    Ends (sealDiscovered natives ids) w
      (fun sealed w' =>
        sealed = 0 ∧ w' = w ∧
            (ids = [] ∨ (w.heap.get root).values.all Expr.isTerminal = false) ∨
          0 < sealed ∧ ids ≠ [] ∧ (w.heap.get root).values.all Expr.isTerminal = true ∧
            w' = { w with heap := w.heap.markSealed root })
      fun _ _ => False := by
  refine Ends.bind (Ends.of_ok (read_apply _ w) ?_)
  by_cases hne : ids = []
  · subst hne
    exact Ends.of_ok rfl (.inl ⟨rfl, rfl, .inl rfl⟩)
  · rw [ha.sealable hids (hopen hne)]
    split
    case isTrue hterm =>
      have hsame : ids.reverse.filter ids.contains = ids.reverse :=
        List.filter_eq_self.mpr fun id hid => List.contains_iff_mem.mpr (List.mem_reverse.mp hid)
      rw [hsame]
      have hrev : ids.reverse ≠ [] := fun h => hne (List.reverse_eq_nil_iff.mp h)
      refine Ends.of_ok (sealEach_apply hplain (fun id hid => hids id (List.mem_reverse.mp hid))
        hrev) (.inr ⟨?_, hne, hterm, rfl⟩)
      exact List.length_pos_iff.mpr hrev
    case isFalse hterm =>
      have hnone : ids.reverse.filter (fun id => ([] : List InstanceId).contains id) = [] :=
        List.filter_eq_nil_iff.mpr fun id _ => Bool.false_ne_true
      rw [hnone]
      exact Ends.of_ok rfl (.inl ⟨rfl, rfl, .inr (Bool.eq_false_iff.mpr hterm)⟩)

end Effect

end ObjectGraph
