import ObjectGraph.Proofs.Construct
import ObjectGraph.Proofs.Run.Keeping

/-!
# What construction keeps

A new instance is not final, and whatever its constructor scopes and properties mention is on the
heap: the arguments are, and so is what the definitions of its types mention. The instance is
changed once more after its scopes have been allocated. This is no continuation of the world in
between, where the instance is there, but one of the world before (`World.Continues.setMembers`).
-/

namespace ObjectGraph

variable {σ : Type} {w w' : World σ}

namespace World

/-- A new instance that is not final may be given members. -/
theorem Continues.setMembers (hc : w.Continues w') {id : InstanceId}
    (hid : w.heap.instances.size ≤ id.index) (hopen : (w'.heap.get id).sealed = false)
    {scopes : List (TypeId × ScopeId)} {slots : List Slot}
    (hscopes : ∀ entry ∈ scopes, w'.heap.Has (.scope entry.2))
    (hslots : ∀ s ∈ slots, w'.heap.Covers s.expr) :
    w.Continues
      { w' with heap := w'.heap.modifyInstance id fun i => { i with scopes, slots } } := by
  have hwithin : w'.heap.Within (w'.heap.modifyInstance id fun i => { i with scopes, slots }) :=
    Heap.within_modifyInstance id _
  refine ⟨hc.toWithin.trans hwithin, ⟨hc.grounded.heap.setMembers id hscopes hslots,
    fun ty e he => hwithin.covers (hc.grounded.definitions ty e he)⟩, fun {id'} hid' => ?_,
    fun {id'} hid' hs => ?_, hc.nests⟩
  · rw [Heap.get_modifyInstance, if_neg]
    · exact hc.kept hid'
    · rintro ⟨rfl, -⟩
      exact Nat.not_lt_of_le hid hid'
  · rw [Heap.get_modifyInstance] at hs ⊢
    split at hs
    case isTrue heq =>
      obtain ⟨rfl, -⟩ := heq
      rw [hopen] at hs
      cases hs
    case isFalse heq =>
      rw [if_neg heq]
      exact hc.fresh hid' hs

end World

/-! ## Slots -/

/-- Placing a slot adds no other. -/
theorem mem_placeSlot {slots : List Slot} {slot s : Slot} (hs : s ∈ placeSlot slots slot) :
    s ∈ slots ∨ s = slot := by
  induction slots with
  | nil => exact .inr (List.mem_singleton.mp hs)
  | cons first rest ih =>
    rw [placeSlot] at hs
    split at hs
    · exact (List.mem_cons.mp hs).symm.imp_left (List.mem_cons_of_mem _)
    · rcases List.mem_cons.mp hs with rfl | hs
      · exact .inl List.mem_cons_self
      · exact (ih hs).imp_left (List.mem_cons_of_mem _)

/-- Placing slots adds no others. -/
theorem mem_foldl_placeSlot {slots before : List Slot} {s : Slot}
    (hs : s ∈ slots.foldl placeSlot before) : s ∈ before ∨ s ∈ slots := by
  induction slots generalizing before with
  | nil => exact .inl hs
  | cons slot slots ih =>
    rcases ih hs with hs | hs
    · refine (mem_placeSlot hs).imp_right fun heq => ?_
      rw [heq]
      exact List.mem_cons_self
    · exact .inr (List.mem_cons_of_mem _ hs)

/-- A new instance starts with slots for the properties of its types. -/
theorem mem_initialSlots {types : Registry} {native : Bool} {id : InstanceId}
    {scopes : List (TypeId × ScopeId)} {s : Slot} (hs : s ∈ initialSlots types native id scopes) :
    ∃ entry ∈ scopes, ∃ p ∈ (types.definition entry.1).properties,
      s = initialSlot native id entry.1 entry.2 p := by
  rcases mem_foldl_placeSlot hs with hs | hs
  · cases hs
  obtain ⟨entry, hentry, hs⟩ := List.mem_flatMap.mp hs
  obtain ⟨p, hp, rfl⟩ := List.mem_map.mp hs
  exact ⟨entry, hentry, p, hp, rfl⟩

/-- The slots that a new instance starts with mention only what is on the heap. -/
theorem covers_initialSlots (hw : w.Grounded) {native : Bool} {id : InstanceId}
    (hid : w.heap.Has (.object id)) {scopes : List (TypeId × ScopeId)}
    (hscopes : ∀ entry ∈ scopes, w.heap.Has (.scope entry.2)) {s : Slot}
    (hs : s ∈ initialSlots w.types native id scopes) : w.heap.Covers s.expr := by
  obtain ⟨entry, hentry, p, hp, rfl⟩ := mem_initialSlots hs
  rw [initialSlot]
  cases hinit : p.initializer with
  | some init =>
    exact Heap.covers_scoped.mpr ⟨hscopes entry hentry,
      hw.definitions _ _ (TypeDef.initializer_mem_exprs hp hinit)⟩
  | none =>
    cases native with
    | true => exact Heap.covers_member.mpr (Heap.covers_object.mpr hid)
    | false => exact Heap.covers_missing

/-! ## Instances -/

namespace Keeps

/-- Allocating a scope. -/
theorem allocScope (hw : w.Grounded) {sc : Scope}
    (hparent : ∀ p, sc.parent = some p → w.heap.Has (.scope p))
    (hreceiver : ∀ id, sc.receiver = some id → w.heap.Has (.object id))
    (hbindings : ∀ b ∈ sc.bindings, w.heap.Covers b.expr) :
    Keeps id (Effect.onHeap (Heap.allocScope sc)) w fun s w' => w'.heap.Has (.scope s) := by
  refine .of_ok rfl (World.continues_of_instances_eq hw
    (hw.heap.allocScope hparent hreceiver hbindings) (Heap.within_allocScope sc) rfl
    (.allocScope hparent)) ?_
  show w.heap.scopes.size < (w.heap.scopes.push sc).size
  rw [Array.size_push]
  exact Nat.lt_succ_self _

/-- Allocating an instance. -/
theorem allocValue (hw : w.Grounded) {ty : TypeId} {payload : Payload}
    (hvalues : ∀ e ∈ payload.elements, w.heap.Covers e) :
    Keeps id (Effect.allocValue ty payload) w fun id w' => w'.heap.Has (.object id) := by
  refine .of_ok rfl (World.continues_allocInstance hw (fun entry hentry => by cases hentry)
    hvalues fun hsealed => ?_) ?_
  · cases payload with
    | array elements => cases hsealed
    | none | scalar value | type ty | host data => rfl
  · show w.heap.instances.size < (w.heap.instances.push _).size
    rw [Array.size_push]
    exact Nat.lt_succ_self _

/-- Allocating a constructor scope. -/
theorem constructorScope (hw : w.Grounded) {cls ty : TypeId} {receiver : InstanceId}
    (hreceiver : w.heap.Has (.object receiver)) {args : List Expr}
    (hargs : ∀ e ∈ args, w.heap.Covers e) :
    Keeps id (Effect.constructorScope cls ty receiver args) w
      fun s w' => w'.heap.Has (.scope s) := by
  have hbind (names : List String) : Keeps id (Effect.onTypes (bindMethods cls names)) w
      fun methods _ => ∀ b ∈ methods, ∃ m, b.expr = .unbound m :=
    .onTypes hw (.bindMethods _ _) fun _ => (Registry.bindMethods_spec _ _ _).1
  refine .read_bind ((hbind _).bind fun methods w' hc hmethods => ?_)
  refine .allocScope hc.grounded (fun p hp => by cases hp) (fun id hid => ?_) fun b hb => ?_
  · obtain rfl : receiver = id := Option.some.inj hid
    exact hc.has hreceiver
  · rcases List.mem_append.mp hb with hb | hb
    · rcases expr_bindParams hb with harg | ⟨p, -, hmissing⟩
      · exact hc.covers (hargs _ harg)
      · rw [hmissing]
        exact Heap.covers_missing
    · obtain ⟨m, hm⟩ := hmethods b hb
      rw [hm]
      exact Heap.covers_unbound m

/-- Allocating the constructor scopes of a lineage. -/
theorem constructorScopes {cls : TypeId} {receiver : InstanceId} (lineage : List TypeId)
    {args : List Expr} (hw : w.Grounded) (hreceiver : w.heap.Has (.object receiver))
    (hargs : ∀ e ∈ args, w.heap.Covers e) :
    Keeps id (Effect.constructorScopes cls receiver lineage args) w
      fun scopes w' => ∀ entry ∈ scopes, w'.heap.Has (.scope entry.2) := by
  induction lineage generalizing w args with
  | nil => exact .pure hw fun entry hentry => by cases hentry
  | cons ty rest ih =>
    refine .bind (constructorScope hw hreceiver hargs) fun scope w₁ hc₁ hscope => ?_
    refine .read_bind (.bind (ih hc₁.grounded (hc₁.has hreceiver) fun e he => ?_)
      fun scopes w₂ hc₂ hscopes => ?_)
    · obtain ⟨arg, harg, rfl⟩ := List.mem_map.mp he
      exact Heap.covers_scoped.mpr
        ⟨hscope, hc₁.grounded.definitions _ _ (TypeDef.parentArg_mem_exprs harg)⟩
    · refine .pure hc₂.grounded fun entry hentry => ?_
      rcases List.mem_append.mp hentry with hentry | hentry
      · exact hscopes entry hentry
      · obtain rfl := List.mem_singleton.mp hentry
        exact hc₂.has hscope

/-- Building an instance. -/
theorem construct (natives : Natives σ) (hw : w.Grounded) {cls : TypeId} {args : List Expr}
    (hargs : ∀ e ∈ args, w.heap.Covers e) :
    Keeps id (Effect.construct natives cls args) w fun id w' => w'.heap.Has (.object id) := by
  let i : Instance := { ty := cls, payload := .none, scopes := [], sealed := false, slots := [] }
  let w₁ : World σ := { w with heap := (w.heap.allocInstance i).2 }
  let new : InstanceId := ⟨w.heap.instances.size⟩
  have hc₁ : w.Continues w₁ := World.continues_allocInstance hw
    (fun entry hentry => by cases hentry) (fun e he => by cases he) fun _ => rfl
  have hnew : w₁.heap.Has (.object new) := by
    show w.heap.instances.size < (w.heap.instances.push i).size
    rw [Array.size_push]
    exact Nat.lt_succ_self _
  have hopen : (w₁.heap.get new).sealed = false := by
    rw [Heap.get_allocInstance, if_pos rfl]
  -- The scopes are allocated in the world that has the instance already.
  have hscopes : Keeps id (Effect.constructorScopes cls new (w₁.types.lineage cls) args) w₁ _ :=
    constructorScopes _ hc₁.grounded hnew fun e he => hc₁.covers (hargs e he)
  have halloc : Effect.onHeap (Heap.allocInstance i) w = .ok new w₁ := rfl
  refine Ends.bind (Ends.of_ok halloc ?_)
  refine Ends.bind (Ends.of_ok rfl
    (Ends.bind (Ends.mono hscopes ?_ fun e w₂ hc₂ => hc₁.trans hc₂)))
  intro scopes w₂ ⟨hc₂, hscopes⟩
  refine Ends.bind (Ends.of_ok rfl (Ends.bind (Ends.of_ok rfl (Ends.of_ok rfl ⟨?_, ?_⟩))))
  · have hstill : (w₂.heap.get new).sealed = false := by
      rw [show w₂.heap.get new = w₁.heap.get new from hc₂.kept hnew]
      exact hopen
    refine (hc₁.trans hc₂).setMembers (Nat.le_refl _) hstill hscopes fun s hs => ?_
    exact covers_initialSlots hc₂.grounded (hc₂.has hnew) hscopes hs
  · exact (Heap.within_modifyInstance new _).has (hc₂.has hnew)

end Keeps

end ObjectGraph
