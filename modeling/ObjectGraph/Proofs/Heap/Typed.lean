import ObjectGraph.Proofs.Heap.Promises
import ObjectGraph.Proofs.Types.Linked

/-!
# Types on the heap

The types that expressions on the heap record are registered, as are those of instances, and the
generic arguments of scopes mention no placeholder. Neither do the types that values can be told
apart by at runtime, those of arrays and those that reflections stand for (`Instance.shown?`),
except where the host has handed the value over (`Heap.Typed`). Each operation on heaps keeps to
that if what is put there does, and so does the growth of the registry.
-/

namespace ObjectGraph

/-- The type by which a value is known at runtime: an array's own type, and the type that a
reflection stands for. -/
def Instance.shown? (i : Instance) : Option TypeId :=
  match i.payload with
  | .array _ => some i.ty
  | .type ty => some ty
  | .none | .scalar _ | .host _ => none

/-- What an array shows does not depend on its elements. -/
theorem Instance.shown?_setElement (i : Instance) (index : ℕ) (e : Expr) :
    ({ i with payload := i.payload.setElement index e } : Instance).shown? = i.shown? := by
  obtain ⟨ty, payload, scopes, sealed, slots⟩ := i
  cases payload <;> rfl

/-- All types in a value of the host are below the bound. -/
def HostValue.TypesBelow (n : ℕ) : HostValue → Prop
  | .value ty payload => ty.index < n ∧ ∀ e ∈ payload.elements, e.TypesBelow n
  | .missing ty => ty.index < n

/-- All types in what a promise holds are below the bound. -/
def Promise.TypesBelow (n : ℕ) : Promise → Prop
  | .registered _ (.returns value) => value.TypesBelow n
  | .settled (.ok value) => value.TypesBelow n
  | .resolved e => e.TypesBelow n
  | .registered _ (.rejects _) | .registered _ .dies | .inFlight _ | .settled (.error _)
  | .rejected _ => True

/-- What is below a bound is below a greater one. -/
theorem HostValue.TypesBelow.mono {m n : ℕ} {value : HostValue} (h : value.TypesBelow m)
    (hmn : m ≤ n) : value.TypesBelow n := by
  cases value with
  | value ty payload => exact ⟨Nat.lt_of_lt_of_le h.1 hmn, fun e he => (h.2 e he).mono hmn⟩
  | missing ty => exact Nat.lt_of_lt_of_le h hmn

/-- What is below a bound is below a greater one. -/
theorem Promise.TypesBelow.mono {m n : ℕ} {p : Promise} (h : p.TypesBelow m) (hmn : m ≤ n) :
    p.TypesBelow n := by
  match p with
  | .registered _ (.returns value) | .settled (.ok value) => exact HostValue.TypesBelow.mono h hmn
  | .resolved e => exact Expr.TypesBelow.mono h hmn
  | .registered _ (.rejects _) | .registered _ .dies | .inFlight _ | .settled (.error _)
  | .rejected _ => trivial

/-- A promise comes to what its task holds. -/
theorem Promise.TypesBelow.ended {n : ℕ} {p : Promise} (h : p.TypesBelow n) (id : PromiseId) :
    (p.ended id).TypesBelow n := by
  match p with
  | .registered _ (.returns value) => exact h
  | .registered _ (.rejects _) | .registered _ .dies => trivial
  | .inFlight _ | .settled _ | .resolved _ | .rejected _ => exact h

namespace Heap

/-- The host has handed the instance over: a promise has it for its result. -/
def HandedOver (h : Heap) (id : InstanceId) : Prop := ∃ p, h.promise p = .resolved (.object id)

/-- Types on the heap are registered, and those that are for runtime mention no placeholder. -/
structure Typed (r : Registry) (h : Heap) : Prop where
  /-- Types in cells are registered. -/
  cell : ∀ {c e}, h.read? c = some e → e.TypesBelow r.size
  /-- Generic arguments mention no placeholder. -/
  typeArgs : ∀ {s entry}, entry ∈ (h.scope s).typeArgs → r.Concrete entry.2
  /-- Types of instances are registered. -/
  instances : ∀ id, (h.get id).ty.index < r.size
  /-- Values show types without placeholders, unless the host has handed them over. -/
  shown : ∀ {id ty}, (h.get id).shown? = some ty → r.Concrete ty ∨ h.HandedOver id
  /-- Types in promises are registered. -/
  promise : ∀ id, (h.promise id).TypesBelow r.size

variable {h h' : Heap} {r r' : Registry}

/-- Writing a cell is no matter of what an instance shows. -/
theorem shown?_write (c : Cell) (e : Expr) (id : InstanceId) :
    ((h.write c e).get id).shown? = (h.get id).shown? := by
  cases c with
  | binding s i => rfl
  | slot o i => simp only [Heap.write, get_modifyInstance]; split <;> rfl
  | element o i =>
    simp only [Heap.write, get_modifyInstance]
    split
    · exact Instance.shown?_setElement (h.get id) i e
    · rfl

/-- Work on the heap `h` has led to `h'`. No promise is made and no instance is dropped, and what
an instance shows it goes on showing. -/
structure Conserves (h h' : Heap) : Prop where
  /-- There are the same promises. -/
  promises : h'.promises.size = h.promises.size
  /-- No instance is dropped. -/
  instances : h.instances.size ≤ h'.instances.size
  /-- What is shown stays. -/
  shown : ∀ {id}, id.index < h.instances.size → (h'.get id).shown? = (h.get id).shown?

namespace Conserves

/-- Nothing has changed. -/
theorem refl : h.Conserves h := ⟨rfl, Nat.le_refl _, fun _ => rfl⟩

/-- Work is done in sequence. -/
theorem trans {h'' : Heap} (a : h.Conserves h') (b : h'.Conserves h'') : h.Conserves h'' where
  promises := b.promises.trans a.promises
  instances := Nat.le_trans a.instances b.instances
  shown hid := (b.shown (Nat.lt_of_lt_of_le hid a.instances)).trans (a.shown hid)

/-- Instances may be left alone. -/
theorem of_instances_eq (hinstances : h'.instances = h.instances)
    (hpromises : h'.promises.size = h.promises.size) : h.Conserves h' where
  promises := hpromises
  instances := Nat.le_of_eq (congrArg Array.size hinstances).symm
  shown {id} _ := by rw [Heap.get, Heap.get, hinstances]

/-- An instance may be added. -/
theorem allocInstance (i : Instance) : h.Conserves (h.allocInstance i).2 where
  promises := rfl
  instances := (h.extends_allocInstance i).size
  shown hid := congrArg Instance.shown? (h.get_allocInstance_of_lt i hid)

/-- A cell may be written. -/
theorem write (c : Cell) (e : Expr) : h.Conserves (h.write c e) where
  promises := congrArg Array.size (h.promises_write c e)
  instances := Nat.le_of_eq (h.size_instances_write c e).symm
  shown {id} _ := shown?_write c e id

/-- An instance may change where that does not show. -/
theorem modifyInstance (id : InstanceId) {f : Instance → Instance}
    (hf : ∀ i, (f i).shown? = i.shown?) : h.Conserves (h.modifyInstance id f) where
  promises := rfl
  instances := Nat.le_of_eq Array.size_modify.symm
  shown {id'} _ := by
    rw [get_modifyInstance]
    split
    · exact hf _
    · rfl

/-- A promise may be read. -/
theorem readPromise (h : Heap) (id : PromiseId) : h.Conserves (h.readPromise id).2 := by
  have hset {h' : Heap} (hh : h.Conserves h') (p : Promise) : h.Conserves (h'.setPromise id p) :=
    hh.trans (of_instances_eq rfl (size_promises_setPromise h' id p))
  have hreads := h.readsTo_readPromise id
  generalize h.readPromise id = read at hreads ⊢
  cases hreads with
  | waits | shares => exact refl
  | @converts value hp =>
    cases value with
    | value ty payload => exact hset (allocInstance (.ofPayload ty payload)) _
    | missing ty => exact hset refl _
  | fails hp => exact hset refl _

end Conserves

/-- Instances that have been handed over stay so as long as results do. -/
theorem HandedOver.mono {id : InstanceId} (hid : h.HandedOver id)
    (hkept : ∀ {p e}, h.promise p = .resolved e → h'.promise p = .resolved e) :
    h'.HandedOver id :=
  hid.imp fun _ hp => hkept hp

namespace Typed

/-- The argument that a scope sees for a placeholder mentions none. -/
theorem typeArg? (ht : h.Typed r) {s : ScopeId} {param ty : TypeId}
    (hty : h.typeArg? s param = some ty) : r.Concrete ty := by
  obtain ⟨t, -, hlookup⟩ := List.exists_of_findSome?_eq_some hty
  obtain ⟨before, after, hsplit, -⟩ := List.lookup_eq_some_iff.mp hlookup
  have hmem : (param, ty) ∈ (h.scope t).typeArgs := by
    rw [hsplit]
    exact List.mem_append_right _ List.mem_cons_self
  exact ht.typeArgs hmem

/-- The registry may grow. -/
theorem registry (ht : h.Typed r) (hr : r.Coherent) (hretains : r.Retains r') : h.Typed r' where
  cell hc := (ht.cell hc).mono hretains.size
  typeArgs hentry := (ht.typeArgs hentry).retained hr hretains
  instances id := Nat.lt_of_lt_of_le (ht.instances id) hretains.size
  shown hty := (ht.shown hty).imp_left fun hc => hc.retained hr hretains
  promise id := (ht.promise id).mono hretains.size

/-- A scope may be added whose generic arguments mention no placeholder. -/
theorem allocScope (ht : h.Typed r) {sc : Scope}
    (hbindings : ∀ b ∈ sc.bindings, b.expr.TypesBelow r.size)
    (htypeArgs : ∀ entry ∈ sc.typeArgs, r.Concrete entry.2) : (h.allocScope sc).2.Typed r := by
  refine ⟨fun {c e} hc => ?_, fun {s entry} hentry => ?_, ht.instances, ht.shown, ht.promise⟩
  · rcases read?_allocScope_cases hc with ⟨b, hb, rfl⟩ | hc
    · exact hbindings b hb
    · exact ht.cell hc
  · rw [scope_allocScope] at hentry
    split at hentry
    · exact htypeArgs entry hentry
    · exact ht.typeArgs hentry

/-- An instance may be added that shows no placeholder, or that the host has handed over. -/
theorem allocInstance (ht : h.Typed r) {i : Instance} (hty : i.ty.index < r.size)
    (hvalues : ∀ e ∈ i.values, e.TypesBelow r.size)
    (hshown : ∀ ty, i.shown? = some ty → r.Concrete ty ∨ h.HandedOver ⟨h.instances.size⟩) :
    (h.allocInstance i).2.Typed r := by
  refine ⟨fun {c e} hc => ?_, ht.typeArgs, fun id => ?_, fun {id ty} hs => ?_, ht.promise⟩
  · rcases read?_allocInstance_cases hc with he | hc
    · exact hvalues e he
    · exact ht.cell hc
  · rw [get_allocInstance]
    split
    · exact hty
    · exact ht.instances id
  · rw [get_allocInstance] at hs
    split at hs
    · rename_i hnew
      obtain rfl : id = ⟨h.instances.size⟩ := Handle.ext_index hnew
      exact hshown ty hs
    · exact ht.shown hs

/-- An expression may be written into a cell. -/
theorem write (ht : h.Typed r) (c : Cell) {e : Expr} (he : e.TypesBelow r.size) :
    (h.write c e).Typed r := by
  have hpromises (p : PromiseId) : (h.write c e).promise p = h.promise p := by
    rw [Heap.promise, promises_write, Heap.promise]
  refine ⟨fun {c' e'} hc => ?_, fun {s entry} hentry => ?_, fun id => ?_, fun {id ty} hs => ?_,
    fun id => ?_⟩
  · rcases read?_write_cases hc with rfl | hc
    · exact he
    · exact ht.cell hc
  · rw [typeArgs_write] at hentry
    exact ht.typeArgs hentry
  · rw [ty_write]
    exact ht.instances id
  · rw [shown?_write] at hs
    exact (ht.shown hs).imp_right fun hid => hid.mono fun hp => (hpromises _).trans hp
  · rw [hpromises]
    exact ht.promise id

/-- A new instance may be given members. -/
theorem setMembers (ht : h.Typed r) (id : InstanceId) {scopes : List (TypeId × ScopeId)}
    {slots : List Slot} (hslots : ∀ s ∈ slots, s.expr.TypesBelow r.size) :
    (h.modifyInstance id fun i => { i with scopes, slots }).Typed r := by
  refine ⟨fun {c e} hc => ?_, ht.typeArgs, fun id' => ?_, fun {id' ty} hs => ?_, ht.promise⟩
  · rcases read?_setMembers_cases hc with ⟨s, hs, rfl⟩ | hc
    · exact hslots s hs
    · exact ht.cell hc
  · rw [get_modifyInstance]
    split <;> exact ht.instances id'
  · rw [get_modifyInstance] at hs
    split at hs <;> exact ht.shown hs

/-- An instance may be marked as final. -/
theorem markSealed (ht : h.Typed r) (id : InstanceId) : (h.markSealed id).Typed r := by
  refine ⟨fun hc => ht.cell (by rwa [read?_markSealed] at hc), ht.typeArgs, fun id' => ?_,
    fun {id' ty} hs => ?_, ht.promise⟩
  · rw [Heap.markSealed, get_modifyInstance]
    split <;> exact ht.instances id'
  · rw [Heap.markSealed, get_modifyInstance] at hs
    split at hs <;> exact ht.shown hs

/-- Promises may move, if results stay. -/
theorem promises (ht : h.Typed r) {promises : Array Promise}
    (hkept : ∀ {p e}, h.promise p = .resolved e →
      ({ h with promises } : Heap).promise p = .resolved e)
    (hpromise : ∀ p, (({ h with promises } : Heap).promise p).TypesBelow r.size) :
    ({ h with promises } : Heap).Typed r where
  cell {c _} hc := ht.cell (c := c) (by cases c <;> exact hc)
  typeArgs := ht.typeArgs
  instances := ht.instances
  shown hs := (ht.shown hs).imp_right fun hid => hid.mono hkept
  promise := hpromise

/-- A promise that has no result yet may be put into another state. -/
theorem setPromise (ht : h.Typed r) {id : PromiseId} {p : Promise}
    (hopen : ∀ e, h.promise id ≠ .resolved e) (hp : p.TypesBelow r.size) :
    (h.setPromise id p).Typed r := by
  refine ht.promises (fun {q e} hq => ?_) fun q => ?_
  · have hne : q ≠ id := fun heq => hopen e (heq ▸ hq)
    exact (promise_setPromise_of_ne hne p).trans hq
  · show ((h.setPromise id p).promise q).TypesBelow r.size
    rcases promise_setPromise (h := h) id q p with hset | hset
    · rw [hset]
      exact hp
    · rw [hset]
      exact ht.promise q

/-- A batch may be run. -/
theorem await (ht : h.Typed r) (ids : List PromiseId) : (Heap.await ids h).2.Typed r := by
  have hpromise (p : PromiseId) : (Heap.await ids h).2.promise p =
      if p ∈ ids then (h.promise p).ended p else h.promise p :=
    promise_awaitIn (fun tasks => List.Perm.refl tasks) ids h p
  have hsame : (Heap.await ids h).2 = { h with promises := (Heap.await ids h).2.promises } := by
    rw [← instances_await ids h, ← scopes_await ids h]
  rw [hsame]
  refine ht.promises (fun {p e} hp => ?_) fun p => ?_
  · show (Heap.await ids h).2.promise p = .resolved e
    rw [hpromise, hp]
    exact ite_self _
  · show ((Heap.await ids h).2.promise p).TypesBelow r.size
    rw [hpromise]
    split
    · exact (ht.promise p).ended p
    · exact ht.promise p

/-- A promise may be read. What is read records registered types. -/
theorem readPromise (ht : h.Typed r) (id : PromiseId) :
    (h.readPromise id).2.Typed r ∧
      ∀ e, (h.readPromise id).1 = .yields e → e.TypesBelow r.size := by
  have hpromise := ht.promise id
  have hreads := h.readsTo_readPromise id
  generalize h.readPromise id = read at hreads ⊢
  cases hreads with
  | waits hp => exact ⟨ht, fun e he => by cases he⟩
  | shares hp =>
    rw [hp] at hpromise
    exact ⟨ht, fun e he => Reading.yields.inj he ▸ hpromise⟩
  | fails hp =>
    refine ⟨ht.setPromise (fun e he => ?_) trivial, fun e he => by cases he⟩
    rcases hp with hp | hp <;> cases hp.symm.trans he
  | @converts value hp =>
    rw [hp] at hpromise
    have hopen : ∀ e, h.promise id ≠ .resolved e := fun e => by
      rw [hp]
      exact nofun
    cases value with
    | missing ty =>
      refine ⟨ht.setPromise hopen (Expr.typesBelow_missing.mpr hpromise), fun e he => ?_⟩
      obtain rfl := Reading.yields.inj he
      exact Expr.typesBelow_missing.mpr hpromise
    | value ty payload =>
      refine ⟨?_, fun e he => ?_⟩
      · -- The new instance is the promise's result, whether it is made before that or after it.
        let node : Expr := .object ⟨h.instances.size⟩
        have hset : (h.setPromise id (.resolved node)).Typed r :=
          ht.setPromise hopen (Expr.typesBelow_object _)
        have hid : h.Has (.promise id) := by
          refine of_not_not fun hnot => ?_
          rw [promise_of_not_has hnot] at hp
          cases hp
        refine hset.allocInstance (i := .ofPayload ty payload) hpromise.1 hpromise.2 fun _ _ => ?_
        exact .inr ⟨id, promise_setPromise_self hid _⟩
      · obtain rfl := Reading.yields.inj he
        exact Expr.typesBelow_object _

end Typed

end Heap

end ObjectGraph
