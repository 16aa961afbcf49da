import ObjectGraph.Proofs.Heap.Scopes
import ObjectGraph.Proofs.Tree.Everywhere
import ObjectGraph.Run.Discover

/-!
# Heaps without dangling handles

Every handle that the heap holds, in a cell, as a parent or receiver, or in a promise, leads to
something on the heap (`Heap.Grounded`). Nothing is ever removed from a heap, so that what is on
it stays there (`Heap.Within`), and an expression that mentions nothing else (`Heap.Covers`) may be
moved anywhere. Each operation on heaps that adds or changes something keeps the heap grounded if
what is put there is covered.
-/

namespace ObjectGraph

namespace Heap

/-- The node is on the heap. -/
def Has (h : Heap) : Node → Prop
  | .scope id => id.index < h.scopes.size
  | .object id => id.index < h.instances.size
  | .promise id => id.index < h.promises.size

/-- Whatever the expression mentions is on the heap. -/
def Covers (h : Heap) (e : Expr) : Prop := ∀ n ∈ e.handles, h.Has n

/-- Whatever the statement mentions is on the heap. -/
def CoversStmt (h : Heap) (s : Stmt) : Prop := ∀ n ∈ s.preorder.flatMap Expr.ownHandles, h.Has n

/-- Whatever the value of a host mentions is on the heap. -/
def CoversHost (h : Heap) : HostValue → Prop
  | .value _ payload => ∀ e ∈ payload.elements, h.Covers e
  | .missing _ => True

/-- Whatever the outcome of a task mentions is on the heap. -/
def CoversOutcome (h : Heap) : Outcome → Prop
  | .returns value => h.CoversHost value
  | .rejects _ | .dies => True

/-- Whatever the promise mentions is on the heap. -/
def CoversPromise (h : Heap) : Promise → Prop
  | .registered _ task => h.CoversOutcome task
  | .settled (.ok value) => h.CoversHost value
  | .resolved e => h.Covers e
  | .inFlight _ | .settled (.error _) | .rejected _ => True

/-- The second heap has whatever the first one has. -/
structure Within (h h' : Heap) : Prop where
  /-- The scopes. -/
  scopes : h.scopes.size ≤ h'.scopes.size
  /-- The instances. -/
  instances : h.instances.size ≤ h'.instances.size
  /-- The promises. -/
  promises : h.promises.size ≤ h'.promises.size

/-- Every handle that the heap holds leads to something on the heap. -/
structure Grounded (h : Heap) : Prop where
  /-- Those in cells. -/
  cell : ∀ {c e}, h.read? c = some e → h.Covers e
  /-- Those of enclosing scopes. -/
  parent : ∀ {s p}, (h.scope s).parent = some p → h.Has (.scope p)
  /-- Those of receivers. -/
  receiver : ∀ {s id}, (h.scope s).receiver = some id → h.Has (.object id)
  /-- Those of constructor scopes. -/
  scopes : ∀ {id entry}, entry ∈ (h.get id).scopes → h.Has (.scope entry.2)
  /-- Those in promises. -/
  promise : ∀ id, h.CoversPromise (h.promise id)

variable {h h' h'' : Heap} {e : Expr} {n : Node}

/-! ## Being on a heap -/

namespace Within

/-- Every heap has what it has. -/
theorem refl : h.Within h := ⟨Nat.le_refl _, Nat.le_refl _, Nat.le_refl _⟩

/-- What is kept twice is kept. -/
theorem trans (a : h.Within h') (b : h'.Within h'') : h.Within h'' :=
  ⟨Nat.le_trans a.scopes b.scopes, Nat.le_trans a.instances b.instances,
    Nat.le_trans a.promises b.promises⟩

/-- Nodes stay on the heap. -/
theorem has (hw : h.Within h') (hn : h.Has n) : h'.Has n := by
  cases n with
  | scope id => exact Nat.lt_of_lt_of_le hn hw.scopes
  | object id => exact Nat.lt_of_lt_of_le hn hw.instances
  | promise id => exact Nat.lt_of_lt_of_le hn hw.promises

/-- Expressions stay covered. -/
theorem covers (hw : h.Within h') (he : h.Covers e) : h'.Covers e :=
  fun n hn => hw.has (he n hn)

/-- Values of a host stay covered. -/
theorem coversHost (hw : h.Within h') {value : HostValue} (hv : h.CoversHost value) :
    h'.CoversHost value := by
  cases value with
  | value ty payload => exact fun e he => hw.covers (hv e he)
  | missing ty => trivial

/-- Outcomes of tasks stay covered. -/
theorem coversOutcome (hw : h.Within h') {task : Outcome} (ht : h.CoversOutcome task) :
    h'.CoversOutcome task := by
  cases task with
  | returns value => exact hw.coversHost ht
  | rejects message => trivial
  | dies => trivial

/-- Promises stay covered. -/
theorem coversPromise (hw : h.Within h') {p : Promise} (hp : h.CoversPromise p) :
    h'.CoversPromise p := by
  match p with
  | .registered ty task => exact hw.coversOutcome hp
  | .settled (.ok value) => exact hw.coversHost hp
  | .resolved e => exact hw.covers hp
  | .inFlight _ | .settled (.error _) | .rejected _ => trivial

end Within

/-! ## What expressions mention -/

/-- An expression is covered if all expressions in it mention themselves is. -/
theorem covers_iff : h.Covers e ↔ e.Everywhere fun t => ∀ n ∈ t.ownHandles, h.Has n := by
  simp only [Covers, Expr.handles, List.mem_flatMap, forall_exists_index, and_imp]
  exact ⟨fun hc t ht n hn => hc n t ht hn, fun hc n t ht hn => hc t ht n hn⟩

/-- A statement is covered if all expressions in it mention themselves is. -/
theorem coversStmt_iff {s : Stmt} :
    h.CoversStmt s ↔ s.Everywhere fun t => ∀ n ∈ t.ownHandles, h.Has n := by
  simp only [CoversStmt, List.mem_flatMap, forall_exists_index, and_imp]
  exact ⟨fun hc t ht n hn => hc n t ht hn, fun hc n t ht hn => hc t ht n hn⟩

section Covers

variable {ty : TypeId} {es : List Expr} {ss ss' : List Stmt} {a b : Expr}

/-- An expression that mentions nothing itself is covered if what it is made of is. -/
theorem covers_of_bare {q : Prop} (hbare : e.ownHandles = [])
    (hq : (e.Everywhere fun t => ∀ n ∈ t.ownHandles, h.Has n) ↔
      (∀ n ∈ e.ownHandles, h.Has n) ∧ q) : h.Covers e ↔ q := by
  rw [covers_iff, hq, hbare]
  exact and_iff_right (List.forall_mem_nil _)

/-- The expressions of a list are covered each. -/
theorem forall_covers_iff : (∀ e ∈ es, h.Covers e) ↔
    ∀ e ∈ es, e.Everywhere fun t => ∀ n ∈ t.ownHandles, h.Has n :=
  forall_congr' fun _ => imp_congr_right fun _ => covers_iff

/-- The statements of a list are covered each. -/
theorem forall_coversStmt_iff : (∀ s ∈ ss, h.CoversStmt s) ↔
    ∀ s ∈ ss, s.Everywhere fun t => ∀ n ∈ t.ownHandles, h.Has n :=
  forall_congr' fun _ => imp_congr_right fun _ => coversStmt_iff

@[simp] theorem covers_scalar (value : Scalar) : h.Covers (.scalar value) :=
  fun n hn => by cases hn

@[simp] theorem covers_missing : h.Covers (.missing ty) := fun n hn => by cases hn

@[simp] theorem covers_unbound (m : MethodRef) : h.Covers (.unbound m) := fun n hn => by cases hn

@[simp] theorem covers_object {id : InstanceId} :
    h.Covers (.object id) ↔ h.Has (.object id) :=
  List.forall_mem_singleton

@[simp] theorem covers_function {m : MethodRef} {id : InstanceId} :
    h.Covers (.function m id) ↔ h.Has (.object id) :=
  List.forall_mem_singleton

@[simp] theorem covers_promise {id : PromiseId} :
    h.Covers (.promise id ty) ↔ h.Has (.promise id) :=
  List.forall_mem_singleton

@[simp] theorem covers_array : h.Covers (.array es ty) ↔ ∀ e ∈ es, h.Covers e :=
  (covers_of_bare rfl Expr.everywhere_array).trans forall_covers_iff.symm

@[simp] theorem covers_member {name : String} :
    h.Covers (.member a name ty) ↔ h.Covers a :=
  (covers_of_bare rfl Expr.everywhere_member).trans covers_iff.symm

@[simp] theorem covers_index : h.Covers (.index a b ty) ↔ h.Covers a ∧ h.Covers b :=
  (covers_of_bare rfl Expr.everywhere_index).trans (and_congr covers_iff.symm covers_iff.symm)

@[simp] theorem covers_binary {op : BinaryOp} :
    h.Covers (.binary op a b ty) ↔ h.Covers a ∧ h.Covers b :=
  (covers_of_bare rfl Expr.everywhere_binary).trans (and_congr covers_iff.symm covers_iff.symm)

@[simp] theorem covers_unary {op : UnaryOp} : h.Covers (.unary op a ty) ↔ h.Covers a :=
  (covers_of_bare rfl Expr.everywhere_unary).trans covers_iff.symm

@[simp] theorem covers_new : h.Covers (.new ty es) ↔ ∀ e ∈ es, h.Covers e :=
  (covers_of_bare rfl Expr.everywhere_new).trans forall_covers_iff.symm

@[simp] theorem covers_call {typeArgs : TypeArgs} :
    h.Covers (.call a es typeArgs ty) ↔ h.Covers a ∧ ∀ e ∈ es, h.Covers e :=
  (covers_of_bare rfl Expr.everywhere_call).trans
    (and_congr covers_iff.symm forall_covers_iff.symm)

@[simp] theorem covers_hooked {hook : HookId} :
    h.Covers (.hooked a hook ty) ↔ h.Covers a :=
  (covers_of_bare rfl Expr.everywhere_hooked).trans covers_iff.symm

@[simp] theorem covers_scoped {s : ScopeId} :
    h.Covers (.scoped s a) ↔ h.Has (.scope s) ∧ h.Covers a := by
  rw [covers_iff, covers_iff, Expr.everywhere_scoped]
  exact and_congr_left' List.forall_mem_singleton

@[simp] theorem covers_block : h.Covers (.block ss ty) ↔ ∀ s ∈ ss, h.CoversStmt s :=
  (covers_of_bare rfl Expr.everywhere_block).trans forall_coversStmt_iff.symm

@[simp] theorem coversStmt_result : h.CoversStmt (.result a) ↔ h.Covers a :=
  coversStmt_iff.trans covers_iff.symm

@[simp] theorem coversStmt_declare {name : String} :
    h.CoversStmt (.declare name ty a) ↔ h.Covers a :=
  coversStmt_iff.trans covers_iff.symm

@[simp] theorem coversStmt_assign {name : String} : h.CoversStmt (.assign name a) ↔ h.Covers a :=
  coversStmt_iff.trans covers_iff.symm

@[simp] theorem coversStmt_branch :
    h.CoversStmt (.branch a ss ss') ↔
      h.Covers a ∧ (∀ s ∈ ss, h.CoversStmt s) ∧ ∀ s ∈ ss', h.CoversStmt s := by
  rw [coversStmt_iff, covers_iff, Stmt.everywhere_branch, forall_coversStmt_iff,
    forall_coversStmt_iff]

/-- Closing an expression over a scope of the heap leaves it covered. -/
theorem covers_closeOver {scope : Option ScopeId} (hs : ∀ s, scope = some s → h.Has (.scope s))
    (he : h.Covers e) : h.Covers (e.closeOver scope) := by
  cases scope with
  | none => exact he
  | some s =>
    rw [Expr.closeOver]
    split
    · exact he
    · exact covers_scoped.mpr ⟨hs s rfl, he⟩

end Covers

/-! ## Values and cells -/

/-- The values of an instance are what its cells hold. -/
theorem mem_values_iff {id : InstanceId} :
    e ∈ (h.get id).values ↔
      (∃ i, h.read? (.slot id i) = some e) ∨ ∃ i, h.read? (.element id i) = some e := by
  rw [Instance.values, List.mem_append, List.mem_map]
  refine or_congr ⟨?_, ?_⟩ List.mem_iff_getElem?
  · rintro ⟨slot, hslot, rfl⟩
    obtain ⟨i, hi⟩ := List.mem_iff_getElem?.mp hslot
    exact ⟨i, by rw [read?, hi]; rfl⟩
  · rintro ⟨i, hi⟩
    obtain ⟨slot, hslot, rfl⟩ := Option.map_eq_some_iff.mp hi
    exact ⟨slot, List.mem_of_getElem? hslot, rfl⟩

/-- The cells of an instance that is not on the heap hold nothing. -/
theorem Grounded.values (hg : h.Grounded) {id : InstanceId} (he : e ∈ (h.get id).values) :
    h.Covers e := by
  rcases mem_values_iff.mp he with ⟨i, hi⟩ | ⟨i, hi⟩
  · exact hg.cell hi
  · exact hg.cell hi

/-- The receiver that a scope sees is on the heap. -/
theorem Grounded.has_receiver? (hg : h.Grounded) {s : ScopeId} {id : InstanceId}
    (hid : h.receiver? s = some id) : h.Has (.object id) := by
  obtain ⟨t, -, ht⟩ := List.exists_of_findSome?_eq_some hid
  exact hg.receiver ht

/-- What is read after an instance has been added is in it, or has been there before. -/
theorem read?_allocInstance_cases {i : Instance} {c : Cell}
    (hread : (h.allocInstance i).2.read? c = some e) : e ∈ i.values ∨ h.read? c = some e := by
  have hvalue {id : InstanceId} (he : e ∈ ((h.allocInstance i).2.get id).values)
      (hold : (h.allocInstance i).2.get id = h.get id → h.read? c = some e) :
      e ∈ i.values ∨ h.read? c = some e := by
    rw [get_allocInstance] at he hold
    split at he
    · exact .inl he
    case isFalse hne => exact .inr (hold (if_neg hne))
  cases c with
  | binding s j => exact .inr hread
  | slot id j =>
    refine hvalue (mem_values_iff.mpr (.inl ⟨j, hread⟩)) fun hold => ?_
    rw [read?, hold] at hread
    exact hread
  | element id j =>
    refine hvalue (mem_values_iff.mpr (.inr ⟨j, hread⟩)) fun hold => ?_
    rw [read?, hold] at hread
    exact hread

/-- What is read after an instance has been given members is in one of its slots, or has been there
before. The payload is not among the members. -/
theorem read?_setMembers_cases {id : InstanceId} {scopes : List (TypeId × ScopeId)}
    {slots : List Slot} {c : Cell}
    (hread : (h.modifyInstance id fun i => { i with scopes, slots }).read? c = some e) :
    (∃ s ∈ slots, s.expr = e) ∨ h.read? c = some e := by
  cases c with
  | binding s j => exact .inr hread
  | slot id' j =>
    rw [read?, get_modifyInstance] at hread
    split at hread
    · obtain ⟨slot, hslot, rfl⟩ := Option.map_eq_some_iff.mp hread
      exact .inl ⟨slot, List.mem_of_getElem? hslot, rfl⟩
    · exact .inr hread
  | element id' j =>
    rw [read?, get_modifyInstance] at hread
    refine .inr ?_
    split at hread <;> exact hread

/-! ## Operations -/

/-- An empty heap is grounded. -/
theorem grounded_empty : empty.Grounded where
  cell {c e} hc := by cases c <;> cases hc
  parent hp := by cases hp
  receiver hr := by cases hr
  scopes hs := by cases hs
  promise id := trivial

/-- A new scope leaves everything on the heap. -/
theorem within_allocScope (sc : Scope) : h.Within (h.allocScope sc).2 :=
  ⟨by simp [allocScope], Nat.le_refl _, Nat.le_refl _⟩

/-- A new instance leaves everything on the heap. -/
theorem within_allocInstance (i : Instance) : h.Within (h.allocInstance i).2 :=
  ⟨Nat.le_refl _, by simp [allocInstance], Nat.le_refl _⟩

/-- Writing leaves everything on the heap. -/
theorem within_write (c : Cell) (e : Expr) : h.Within (h.write c e) :=
  ⟨Nat.le_of_eq (size_scopes_write h c e).symm, Nat.le_of_eq (size_instances_write h c e).symm,
    Nat.le_of_eq (congrArg Array.size (promises_write h c e)).symm⟩

/-- Changing an instance leaves everything on the heap. -/
theorem within_modifyInstance (id : InstanceId) (f : Instance → Instance) :
    h.Within (h.modifyInstance id f) :=
  ⟨Nat.le_refl _, by simp [modifyInstance], Nat.le_refl _⟩

/-- Changing a promise leaves everything on the heap. -/
theorem within_setPromise (id : PromiseId) (p : Promise) : h.Within (h.setPromise id p) :=
  ⟨Nat.le_refl _, Nat.le_refl _, by simp [setPromise]⟩

/-- A promise of a heap in which one was changed. -/
theorem promise_setPromise (id id' : PromiseId) (p : Promise) :
    (h.setPromise id p).promise id' = p ∨ (h.setPromise id p).promise id' = h.promise id' := by
  simp only [setPromise, promise, getD_modify]
  split
  · exact .inl rfl
  · exact .inr rfl

namespace Grounded

/-- A scope may be added if what it mentions is on the heap. -/
theorem allocScope (hg : h.Grounded) {sc : Scope}
    (hparent : ∀ p, sc.parent = some p → h.Has (.scope p))
    (hreceiver : ∀ id, sc.receiver = some id → h.Has (.object id))
    (hbindings : ∀ b ∈ sc.bindings, h.Covers b.expr) : (h.allocScope sc).2.Grounded := by
  have hw : h.Within (h.allocScope sc).2 := within_allocScope sc
  refine ⟨fun {c e} hc => hw.covers ?_, fun {s p} hp => hw.has ?_, fun {s id} hr => hw.has ?_,
    fun hs => hw.has (hg.scopes hs), fun id => hw.coversPromise (hg.promise id)⟩
  · rcases read?_allocScope_cases hc with ⟨b, hb, rfl⟩ | hc
    · exact hbindings b hb
    · exact hg.cell hc
  · rw [scope_allocScope] at hp
    split at hp
    · exact hparent p hp
    · exact hg.parent hp
  · rw [scope_allocScope] at hr
    split at hr
    · exact hreceiver id hr
    · exact hg.receiver hr

/-- An instance may be added if what it mentions is on the heap. -/
theorem allocInstance (hg : h.Grounded) {i : Instance}
    (hscopes : ∀ entry ∈ i.scopes, h.Has (.scope entry.2)) (hvalues : ∀ e ∈ i.values, h.Covers e) :
    (h.allocInstance i).2.Grounded := by
  have hw : h.Within (h.allocInstance i).2 := within_allocInstance i
  refine ⟨fun {c e} hc => hw.covers ?_, fun hp => hw.has (hg.parent hp),
    fun hr => hw.has (hg.receiver hr), fun {id entry} hs => hw.has ?_,
    fun id => hw.coversPromise (hg.promise id)⟩
  · rcases read?_allocInstance_cases hc with he | hc
    · exact hvalues e he
    · exact hg.cell hc
  · rw [get_allocInstance] at hs
    split at hs
    · exact hscopes entry hs
    · exact hg.scopes hs

/-- A promise may be put into a state in which it mentions what is on the heap. -/
theorem setPromise (hg : h.Grounded) {p : Promise} (id : PromiseId) (hp : h.CoversPromise p) :
    (h.setPromise id p).Grounded := by
  have hw : h.Within (h.setPromise id p) := within_setPromise id p
  refine ⟨fun {c e} hc => hw.covers (hg.cell (c := c) ?_), fun hp => hw.has (hg.parent hp),
    fun hr => hw.has (hg.receiver hr), fun hs => hw.has (hg.scopes hs),
    fun id' => hw.coversPromise ?_⟩
  · cases c <;> exact hc
  · rcases promise_setPromise id id' p with hset | hset
    · rw [hset]
      exact hp
    · rw [hset]
      exact hg.promise id'

/-- An expression that mentions what is on the heap may be written anywhere. -/
theorem write (hg : h.Grounded) (c : Cell) (he : h.Covers e) : (h.write c e).Grounded := by
  have hw : h.Within (h.write c e) := within_write c e
  refine ⟨fun {c' e'} hc => hw.covers ?_, fun hp => hw.has ?_, fun hr => hw.has ?_,
    fun hs => hw.has ?_, fun id => hw.coversPromise ?_⟩
  · rcases read?_write_cases hc with rfl | hc
    · exact he
    · exact hg.cell hc
  · rw [parent_write] at hp
    exact hg.parent hp
  · rw [receiver_write] at hr
    exact hg.receiver hr
  · rw [instance_scopes_write] at hs
    exact hg.scopes hs
  · rw [Heap.promise, promises_write]
    exact hg.promise id

/-- An instance may be given members that mention what is on the heap, in place of those it has. -/
theorem setMembers (hg : h.Grounded) (id : InstanceId) {scopes : List (TypeId × ScopeId)}
    {slots : List Slot} (hscopes : ∀ entry ∈ scopes, h.Has (.scope entry.2))
    (hslots : ∀ s ∈ slots, h.Covers s.expr) :
    (h.modifyInstance id fun i => { i with scopes, slots }).Grounded := by
  have hw : h.Within (h.modifyInstance id fun i => { i with scopes, slots }) :=
    within_modifyInstance id _
  refine ⟨fun {c e} hc => hw.covers ?_, fun hp => hw.has (hg.parent hp),
    fun hr => hw.has (hg.receiver hr), fun {id' entry} hs => hw.has ?_,
    fun id => hw.coversPromise (hg.promise id)⟩
  · rcases read?_setMembers_cases hc with ⟨s, hs, rfl⟩ | hc
    · exact hslots s hs
    · exact hg.cell hc
  · rw [get_modifyInstance] at hs
    split at hs
    · exact hscopes entry hs
    · exact hg.scopes hs

/-- Instances may be marked as final. -/
theorem markSealed (hg : h.Grounded) (id : InstanceId) : (h.markSealed id).Grounded := by
  have hw : h.Within (h.markSealed id) := within_modifyInstance id _
  refine ⟨fun hc => hw.covers ?_, fun hp => hw.has (hg.parent hp),
    fun hr => hw.has (hg.receiver hr), fun {id' entry} hs => hw.has ?_,
    fun id => hw.coversPromise (hg.promise id)⟩
  · rw [read?_markSealed] at hc
    exact hg.cell hc
  · rw [Heap.markSealed, get_modifyInstance] at hs
    have hs : entry ∈ (h.get id').scopes := by
      split at hs <;> exact hs
    exact hg.scopes hs

end Grounded

end Heap

end ObjectGraph
