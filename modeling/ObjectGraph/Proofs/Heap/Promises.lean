import Mathlib.Logic.Relation
import ObjectGraph.Proofs.Heap.Grounded
import ObjectGraph.Run.Batch

/-!
# Promises move forward

A promise is registered with its task, settled when the task has ended, and resolved or rejected when
it is read for the first time (`Promise.Next`). Two things move promises: a read moves the promise
that is read (`Heap.readPromise`), and a batch moves those that it is given, each to the result of its
own task, in whatever order the tasks finish (`Heap.promise_awaitIn`). Neither moves another promise.
A read that comes to something leaves the promise in a state in which every read comes to the same and
changes nothing (`Heap.readPromise_of_answered`).
-/

namespace ObjectGraph

/-! ## The order of states -/

/-- The result that a promise is settled with when its task has ended. -/
def Outcome.result (id : PromiseId) : Outcome → Except String HostValue
  | .returns value => .ok value
  | .rejects message => .error message
  | .dies => .error ("promise task failed: " ++ id.text)

/-- The expression of a value handed over by host code, given the instance that is made for it. -/
def HostValue.node (new : InstanceId) : HostValue → Expr
  | .value _ _ => .object new
  | .missing ty => .missing ty

namespace Promise

/-- One move of a promise. -/
inductive Next (id : PromiseId) : Promise → Promise → Prop
  /-- Its task has ended. -/
  | settles (ty : TypeId) (task : Outcome) :
    Next id (.registered ty task) (.settled (task.result id))
  /-- Its value has been turned into an expression. -/
  | resolves (value : HostValue) (new : InstanceId) :
    Next id (.settled (.ok value)) (.resolved (value.node new))
  /-- The failure of its task has been read. -/
  | rejects (message : String) : Next id (.settled (.error message)) (.rejected message)

/-- The promise moves from the one state to the other, or stays as it is. -/
def Forward (id : PromiseId) : Promise → Promise → Prop := Relation.ReflTransGen (Next id)

/-- What a promise comes to in a batch: if it waits for its task, then to the result of the task. -/
def ended (id : PromiseId) : Promise → Promise
  | .registered _ task => .settled (task.result id)
  | p => p

variable {id : PromiseId} {p : Promise}

/-- A batch moves promises forward. -/
theorem forward_ended (id : PromiseId) (p : Promise) : Forward id p (p.ended id) := by
  cases p with
  | registered ty task => exact .single (.settles ty task)
  | _ => exact .refl

/-- A batch resolves no promise. -/
theorem eq_resolved_of_ended {e : Expr} (h : p.ended id = .resolved e) : p = .resolved e := by
  cases p with
  | registered ty task => cases h
  | _ => exact h

/-- The result of a promise stays. -/
theorem Forward.of_resolved {e : Expr} (h : Forward id (.resolved e) p) : p = .resolved e := by
  rcases Relation.ReflTransGen.cases_head h with heq | ⟨_, hnext, _⟩
  · exact heq.symm
  · cases hnext

/-- The failure of a promise stays. -/
theorem Forward.of_rejected {message : String} (h : Forward id (.rejected message) p) :
    p = .rejected message := by
  rcases Relation.ReflTransGen.cases_head h with heq | ⟨_, hnext, _⟩
  · exact heq.symm
  · cases hnext

/-- A promise that no longer waits went through the state that holds the result of its task. -/
theorem Forward.settled_of_registered {ty : TypeId} {task : Outcome}
    (h : Forward id (.registered ty task) p) (hp : p ≠ .registered ty task) :
    Forward id (.settled (task.result id)) p := by
  rcases Relation.ReflTransGen.cases_head h with heq | ⟨_, hsettles, hrest⟩
  · exact absurd heq.symm hp
  · cases hsettles
    exact hrest

/-- A promise that waits is resolved with what its own task returns. -/
theorem Forward.result {ty : TypeId} {task : Outcome} {e : Expr}
    (h : Forward id (.registered ty task) (.resolved e)) :
    ∃ value new, task.result id = .ok value ∧ e = value.node new := by
  have hsettled := h.settled_of_registered nofun
  generalize task.result id = result at hsettled
  rcases Relation.ReflTransGen.cases_head hsettled with heq | ⟨_, hread, hrest⟩
  · cases heq
  · cases hread with
    | resolves value new =>
      exact ⟨value, new, rfl, Promise.resolved.inj (Forward.of_resolved hrest)⟩
    | rejects message => cases Forward.of_rejected hrest

/-- A promise that waits is rejected with the message that its own task fails with. -/
theorem Forward.message {ty : TypeId} {task : Outcome} {message : String}
    (h : Forward id (.registered ty task) (.rejected message)) : task.result id = .error message := by
  have hsettled := h.settled_of_registered nofun
  generalize task.result id = result at hsettled
  rcases Relation.ReflTransGen.cases_head hsettled with heq | ⟨_, hread, hrest⟩
  · cases heq
  · cases hread with
    | resolves value new => cases Forward.of_resolved hrest
    | rejects message' => rw [Promise.rejected.inj (Forward.of_rejected hrest)]

/-- No promise moves to where its task is running. -/
theorem Forward.of_inFlight {ty : TypeId} (h : Forward id p (.inFlight ty)) : p = .inFlight ty := by
  rcases Relation.ReflTransGen.cases_tail h with heq | ⟨_, _, hnext⟩
  · exact heq.symm
  · cases hnext

end Promise

/-! ## Reading -/

/-- What a read of a promise comes to. -/
inductive Reading where
  /-- There is no result yet. -/
  | waits
  /-- The result. -/
  | yields (node : Expr)
  /-- The message that the task has failed with. -/
  | fails (message : String)

/-- The promise is in the state that belongs to what a reader has come to. -/
def Promise.IsAnswered (p : Promise) : Reading → Prop
  | .waits => False
  | .yields node => p = .resolved node
  | .fails message => p = .rejected message

/-- What belongs to a resolved promise is its result. -/
theorem Promise.IsAnswered.eq_yields {node : Expr} {reading : Reading}
    (h : (Promise.resolved node).IsAnswered reading) : reading = .yields node := by
  cases reading with
  | waits => exact h.elim
  | yields node' => rw [Promise.resolved.inj h]
  | fails message => cases h

/-- What a reader has come to belongs to the promise for ever. -/
theorem Promise.IsAnswered.forward {id : PromiseId} {p p' : Promise} {reading : Reading}
    (h : p.IsAnswered reading) (hforward : Forward id p p') : p'.IsAnswered reading := by
  cases reading with
  | waits => exact h
  | yields node =>
    obtain rfl : p = .resolved node := h
    exact hforward.of_resolved
  | fails message =>
    obtain rfl : p = .rejected message := h
    exact hforward.of_rejected

namespace Heap

variable {h h' h'' : Heap} {id other : PromiseId}

/-- The expression of a value handed over by host code, with the instance made for it. -/
def materialize (h : Heap) : HostValue → Expr × Heap
  | .value ty payload =>
    let (new, h) := h.allocInstance (.ofPayload ty payload)
    (.object new, h)
  | .missing ty => (.missing ty, h)

/-- A read of a promise. The first one turns the value into an expression. -/
def readPromise (h : Heap) (id : PromiseId) : Reading × Heap :=
  match h.promise id with
  | .registered _ _ | .inFlight _ => (.waits, h)
  | .settled (.ok value) =>
    let (node, h) := h.materialize value
    (.yields node, h.setPromise id (.resolved node))
  | .settled (.error message) | .rejected message =>
    (.fails message, h.setPromise id (.rejected message))
  | .resolved node => (.yields node, h)

/-- A promise whose state is set. -/
theorem promise_setPromise_self (hid : h.Has (.promise id)) (p : Promise) :
    (h.setPromise id p).promise id = p := by
  rw [promise, setPromise, getD_modify, if_pos ⟨rfl, hid⟩]

/-- Setting the state of a promise leaves the others as they are. -/
theorem promise_setPromise_of_ne (hne : other ≠ id) (p : Promise) :
    (h.setPromise id p).promise other = h.promise other := by
  rw [promise, setPromise, getD_modify, if_neg fun hc => hne (Handle.ext_index hc.1).symm]
  rfl

/-- A promise that is set to the state it has, or that is not on the heap, leaves the heap as it
is. -/
theorem setPromise_of_eq {p : Promise} (hp : h.Has (.promise id) → h.promise id = p) :
    h.setPromise id p = h := by
  have hsame : h.promises.modify id.index (fun _ => p) = h.promises := by
    refine Array.ext (by rw [Array.size_modify]) fun i hi hi' => ?_
    rw [Array.getElem_modify]
    split
    case isTrue heq =>
      subst heq
      rw [← hp hi', promise, Array.getD_eq_getD_getElem?, Array.getElem?_eq_getElem hi']
      rfl
    case isFalse => rfl
  rw [setPromise, hsame]

/-- Setting the state of a promise keeps the number of promises. -/
theorem size_promises_setPromise (h : Heap) (id : PromiseId) (p : Promise) :
    (h.setPromise id p).promises.size = h.promises.size :=
  Array.size_modify

/-- The state that is set last counts. -/
theorem setPromise_setPromise (h : Heap) (id : PromiseId) (p p' : Promise) :
    (h.setPromise id p).setPromise id p' = h.setPromise id p' := by
  have hsame : (h.promises.modify id.index (fun _ => p)).modify id.index (fun _ => p') =
      h.promises.modify id.index fun _ => p' := by
    refine Array.ext (by simp only [Array.size_modify]) fun i hi hi' => ?_
    simp only [Array.getElem_modify]
    split <;> rfl
  simp only [setPromise, hsame]

/-- Turning a value into an expression is no matter of promises. -/
theorem promises_materialize (h : Heap) (value : HostValue) :
    (h.materialize value).2.promises = h.promises := by
  cases value <;> rfl

/-- Turning a value into an expression makes at most one instance. -/
theorem size_materialize_le (h : Heap) (value : HostValue) :
    (h.materialize value).2.instances.size ≤ h.instances.size + 1 := by
  cases value with
  | value ty payload => exact Nat.le_of_eq (Array.size_push _)
  | missing ty => exact Nat.le_succ _

/-- The expression is that of the value and of an instance that is new. -/
theorem materialize_eq (h : Heap) (value : HostValue) :
    (h.materialize value).1 = value.node ⟨h.instances.size⟩ := by
  cases value <;> rfl

/-- A read that takes the state out first and leaves the promise in flight until it puts a state
back. -/
def readByExchange (h : Heap) (id : PromiseId) (ty : TypeId) : Reading × Heap :=
  let exchanged := h.setPromise id (.inFlight ty)
  match h.promise id with
  | .settled (.ok value) =>
    let (node, h) := exchanged.materialize value
    (.yields node, h.setPromise id (.resolved node))
  | .settled (.error message) | .rejected message =>
    (.fails message, exchanged.setPromise id (.rejected message))
  | .resolved node => (.yields node, exchanged.setPromise id (.resolved node))
  | pending => (.waits, exchanged.setPromise id pending)

/-- That a promise is in flight during the read makes no difference, since it is not when the read
has ended. -/
theorem readByExchange_eq (h : Heap) (id : PromiseId) (ty : TypeId) :
    h.readByExchange id ty = h.readPromise id := by
  unfold readByExchange readPromise
  cases hp : h.promise id with
  | registered ty' task =>
    exact congrArg _ ((setPromise_setPromise ..).trans (setPromise_of_eq fun _ => hp))
  | inFlight ty' =>
    exact congrArg _ ((setPromise_setPromise ..).trans (setPromise_of_eq fun _ => hp))
  | resolved node =>
    exact congrArg _ ((setPromise_setPromise ..).trans (setPromise_of_eq fun _ => hp))
  | rejected message => exact congrArg _ (setPromise_setPromise ..)
  | settled result =>
    cases result with
    | error message => exact congrArg _ (setPromise_setPromise ..)
    | ok value =>
      cases value with
      | value valueTy payload =>
        exact congrArg _ (setPromise_setPromise (h.materialize (.value valueTy payload)).2 ..)
      | missing missingTy => exact congrArg _ (setPromise_setPromise ..)

/-- What a read comes to and which heap it leaves, for every state of the promise. -/
inductive ReadsTo (h : Heap) (id : PromiseId) : Reading × Heap → Prop where
  /-- There is no result yet. -/
  | waits {ty : TypeId}
      (hp : (∃ task, h.promise id = .registered ty task) ∨ h.promise id = .inFlight ty) :
      ReadsTo h id (.waits, h)
  /-- The first reader turns the value into an expression. -/
  | converts {value : HostValue} (hp : h.promise id = .settled (.ok value)) :
      ReadsTo h id (.yields (h.materialize value).1,
        (h.materialize value).2.setPromise id (.resolved (h.materialize value).1))
  /-- Later readers share the expression. -/
  | shares {node : Expr} (hp : h.promise id = .resolved node) : ReadsTo h id (.yields node, h)
  /-- Every reader fails with the message of the task. -/
  | fails {message : String}
      (hp : h.promise id = .settled (.error message) ∨ h.promise id = .rejected message) :
      ReadsTo h id (.fails message, h.setPromise id (.rejected message))

/-- A read is one of these, so that what holds of reads is shown for each of them. -/
theorem readsTo_readPromise (h : Heap) (id : PromiseId) : h.ReadsTo id (h.readPromise id) := by
  unfold readPromise
  cases hp : h.promise id with
  | registered ty task => exact .waits (.inl ⟨task, hp⟩)
  | inFlight ty => exact .waits (.inr hp)
  | settled result =>
    cases result with
    | ok value => exact .converts hp
    | error message => exact .fails (.inl hp)
  | resolved node => exact .shares hp
  | rejected message => exact .fails (.inr hp)

/-- A read leaves the other promises as they are. -/
theorem promise_readPromise_of_ne (hne : other ≠ id) :
    (h.readPromise id).2.promise other = h.promise other := by
  have hreads := h.readsTo_readPromise id
  generalize h.readPromise id = read at hreads ⊢
  cases hreads with
  | waits | shares => rfl
  | @converts value hp =>
    refine (promise_setPromise_of_ne hne _).trans ?_
    rw [promise, promise, promises_materialize]
  | fails hp => exact promise_setPromise_of_ne hne _

/-- A read moves its promise forward. -/
theorem forward_readPromise (hid : h.Has (.promise id)) :
    (h.promise id).Forward id ((h.readPromise id).2.promise id) := by
  have hreads := h.readsTo_readPromise id
  generalize h.readPromise id = read at hreads ⊢
  cases hreads with
  | waits | shares => exact .refl
  | @converts value hp =>
    have hmade : (h.materialize value).2.Has (.promise id) := by
      rw [Has, promises_materialize]
      exact hid
    rw [hp, promise_setPromise_self hmade, materialize_eq]
    exact .single (.resolves value _)
  | @fails message hp =>
    rw [promise_setPromise_self hid]
    rcases hp with hp | hp
    · rw [hp]
      exact .single (.rejects message)
    · rw [hp]
      exact .refl

/-- A read that comes to something leaves its promise in the state that belongs to it. -/
theorem isAnswered_readPromise (hid : h.Has (.promise id)) (hr : (h.readPromise id).1 ≠ .waits) :
    ((h.readPromise id).2.promise id).IsAnswered (h.readPromise id).1 := by
  have hreads := h.readsTo_readPromise id
  generalize h.readPromise id = read at hreads hr ⊢
  cases hreads with
  | waits hp => exact absurd rfl hr
  | @converts value hp =>
    refine promise_setPromise_self ?_ _
    rw [Has, promises_materialize]
    exact hid
  | shares hp => exact hp
  | fails hp => exact promise_setPromise_self hid _

/-- Where a reader has come to something, every read comes to the same and changes nothing. -/
theorem readPromise_of_answered {reading : Reading} (hp : (h.promise id).IsAnswered reading) :
    h.readPromise id = (reading, h) := by
  cases reading with
  | waits => exact hp.elim
  | yields node =>
    have hp : h.promise id = .resolved node := hp
    rw [readPromise, hp]
  | fails message =>
    have hp : h.promise id = .rejected message := hp
    rw [readPromise, hp]
    dsimp only
    rw [setPromise_of_eq fun _ => hp]

/-- A promise that is not on the heap counts as rejected. -/
theorem promise_of_not_has (hid : ¬ h.Has (.promise id)) : h.promise id = .rejected "" := by
  rw [promise, Array.getD_eq_getD_getElem?, Array.getElem?_eq_none (Nat.le_of_not_lt hid)]
  rfl

/-- A promise that waits for its task is on the heap. -/
theorem has_of_registered {ty : TypeId} {task : Outcome} (hp : h.promise id = .registered ty task) :
    h.Has (.promise id) := Classical.byContradiction fun hnot => by
  rw [promise_of_not_has hnot] at hp
  cases hp

/-- Reading a promise that is not on the heap changes nothing. -/
theorem readPromise_of_not_has (hid : ¬ h.Has (.promise id)) : (h.readPromise id).2 = h := by
  rw [readPromise, promise_of_not_has hid]
  exact setPromise_of_eq fun hc => absurd hc hid

/-- Reading makes no promises. -/
theorem size_promises_readPromise (h : Heap) (id : PromiseId) :
    (h.readPromise id).2.promises.size = h.promises.size := by
  have hreads := h.readsTo_readPromise id
  generalize h.readPromise id = read at hreads ⊢
  cases hreads with
  | waits | shares => rfl
  | @converts value hp =>
    exact (size_promises_setPromise _ id _).trans
      (congrArg Array.size (promises_materialize h value))
  | fails hp => exact size_promises_setPromise h id _

/-! ## Batches -/

/-- Starting tasks keeps the number of promises. -/
theorem size_promises_start (ids : List PromiseId) (h : Heap) :
    (start ids h).2.promises.size = h.promises.size := by
  induction ids generalizing h with
  | nil => rfl
  | cons first ids ih =>
    rw [start]
    split
    · exact (ih _).trans (size_promises_setPromise h first _)
    · exact ih h

/-- A promise that does not wait has no task started, and stays as it is. -/
theorem start_of_not_waiting {ids : List PromiseId}
    (hp : id ∈ ids → (h.promise id).isPending = false) :
    (start ids h).2.promise id = h.promise id ∧ ∀ t ∈ (start ids h).1, t.id ≠ id := by
  induction ids generalizing h with
  | nil => exact ⟨rfl, fun t ht => by cases ht⟩
  | cons first ids ih =>
    rw [start]
    split
    · rename_i ty task heq
      have hne : id ≠ first := by
        rintro rfl
        have hpending := hp List.mem_cons_self
        rw [heq] at hpending
        cases hpending
      have hset : (h.setPromise first (.inFlight ty)).promise id = h.promise id :=
        promise_setPromise_of_ne hne _
      obtain ⟨hstate, htasks⟩ := ih (h := h.setPromise first (.inFlight ty)) fun hin => by
        rw [hset]
        exact hp (List.mem_cons_of_mem _ hin)
      exact ⟨hstate.trans hset, List.forall_mem_cons.mpr ⟨fun heq => hne heq.symm, htasks⟩⟩
    · exact ih fun hin => hp (List.mem_cons_of_mem _ hin)

/-- A promise that waits has its task started once, and is in flight from then on. -/
theorem start_of_registered {ids : List PromiseId} {ty : TypeId} {task : Outcome}
    (hid : h.Has (.promise id)) (hp : h.promise id = .registered ty task) (hin : id ∈ ids) :
    (start ids h).2.promise id = .inFlight ty ∧
      (start ids h).1.filter (·.id = id) = [⟨id, task⟩] := by
  induction ids generalizing h with
  | nil => cases hin
  | cons first ids ih =>
    rw [start]
    by_cases hne : id = first
    · subst hne
      rw [hp]
      have hset : (h.setPromise id (.inFlight ty)).promise id = .inFlight ty :=
        promise_setPromise_self hid _
      -- From now on the promise waits no more.
      have hidle : ((h.setPromise id (.inFlight ty)).promise id).isPending = false := by
        rw [hset]
        rfl
      obtain ⟨hstate, htasks⟩ := start_of_not_waiting fun _ : id ∈ ids => hidle
      refine ⟨hstate.trans hset, ?_⟩
      have hnone : (start ids (h.setPromise id (.inFlight ty))).1.filter (·.id = id) = [] :=
        List.filter_eq_nil_iff.mpr fun t ht => by simpa using htasks t ht
      exact (List.filter_cons_of_pos (by simp)).trans (congrArg _ hnone)
    · have hrest : id ∈ ids := (List.mem_cons.mp hin).resolve_left hne
      split
      · rename_i ty' task' heq
        have hset := promise_setPromise_of_ne (h := h) hne (.inFlight ty')
        have hhas : (h.setPromise first (.inFlight ty')).Has (.promise id) := by
          rw [Has, size_promises_setPromise]
          exact hid
        obtain ⟨hstate, htasks⟩ := ih hhas (hset.trans hp) hrest
        exact ⟨hstate, (List.filter_cons_of_neg (by simpa using Ne.symm hne)).trans htasks⟩
      · exact ih hid hp hrest

/-- Recording tasks of other promises leaves a promise as it is. -/
theorem promise_foldl_of_ne {step : Heap → Task → Heap}
    (hstep : ∀ h t, t.id ≠ id → (step h t).promise id = h.promise id) {tasks : List Task}
    (hne : ∀ t ∈ tasks, t.id ≠ id) (h : Heap) :
    (tasks.foldl step h).promise id = h.promise id := by
  induction tasks generalizing h with
  | nil => rfl
  | cons t tasks ih =>
    obtain ⟨ht, hrest⟩ := List.forall_mem_cons.mp hne
    exact (ih hrest _).trans (hstep h t ht)

/-- Recording tasks keeps the number of promises. -/
theorem size_promises_foldl {step : Heap → Task → Heap}
    (hsize : ∀ h t, (step h t).promises.size = h.promises.size) (tasks : List Task) (h : Heap) :
    (tasks.foldl step h).promises.size = h.promises.size := by
  induction tasks generalizing h with
  | nil => rfl
  | cons t tasks ih => exact (ih _).trans (hsize h t)

/-- Where a promise has one task only, it is left as recording that task leaves it. -/
theorem promise_foldl_of_single {step : Heap → Task → Heap}
    (hstep : ∀ h t, t.id ≠ id → (step h t).promise id = h.promise id)
    (hsize : ∀ h t, (step h t).promises.size = h.promises.size) {tasks : List Task} {task : Task}
    (hsingle : tasks.filter (·.id = id) = [task]) (h : Heap) :
    ∃ h₁, h₁.promises.size = h.promises.size ∧ h₁.promise id = h.promise id ∧
      (tasks.foldl step h).promise id = (step h₁ task).promise id := by
  obtain ⟨before, after, rfl, hbefore, -, hafter⟩ := List.filter_eq_cons_iff.mp hsingle
  have hnone : ∀ t ∈ after, t.id ≠ id := fun t ht => by
    simpa using List.filter_eq_nil_iff.mp hafter t ht
  refine ⟨before.foldl step h, size_promises_foldl hsize before h, ?_, ?_⟩
  · exact promise_foldl_of_ne hstep (fun t ht => by simpa using hbefore t ht) h
  · rw [List.foldl_append, List.foldl_cons]
    exact promise_foldl_of_ne hstep hnone _

/-- Recording a result leaves the promises of other tasks as they are. -/
theorem promise_record_of_ne (h : Heap) (t : Task) (hne : t.id ≠ id) :
    (h.record t).promise id = h.promise id := by
  unfold record
  split
  · exact promise_setPromise_of_ne (Ne.symm hne) _
  · exact promise_setPromise_of_ne (Ne.symm hne) _
  · rfl

/-- Recording the loss of a task leaves the promises of other tasks as they are. -/
theorem promise_recordLost_of_ne (h : Heap) (t : Task) (hne : t.id ≠ id) :
    (h.recordLost t).promise id = h.promise id := by
  unfold recordLost
  split
  · exact promise_setPromise_of_ne (Ne.symm hne) _
  · rfl

/-- Recording a result keeps the number of promises. -/
theorem size_promises_record (h : Heap) (t : Task) :
    (h.record t).promises.size = h.promises.size := by
  unfold record
  split
  · exact size_promises_setPromise h t.id _
  · exact size_promises_setPromise h t.id _
  · rfl

/-- Recording the loss of a task keeps the number of promises. -/
theorem size_promises_recordLost (h : Heap) (t : Task) :
    (h.recordLost t).promises.size = h.promises.size := by
  unfold recordLost
  split
  · exact size_promises_setPromise h t.id _
  · rfl

/-- The task of a promise in flight gives it the task's result, in the one way or the other. -/
theorem promise_recordLost_record {ty : TypeId} {task : Task} {h₁ h₂ : Heap}
    (h₁has : h₁.Has (.promise task.id)) (h₂has : h₂.Has (.promise task.id))
    (hinFlight : h₁.promise task.id = .inFlight ty)
    (hrecorded : h₂.promise task.id = (h₁.record task).promise task.id) :
    (h₂.recordLost task).promise task.id = .settled (task.outcome.result task.id) := by
  unfold record at hrecorded
  unfold recordLost
  cases ho : task.outcome with
  | returns value =>
    rw [ho] at hrecorded
    have hstate := hrecorded.trans (promise_setPromise_self h₁has _)
    rw [hstate]
    exact hstate
  | rejects message =>
    rw [ho] at hrecorded
    have hstate := hrecorded.trans (promise_setPromise_self h₁has _)
    rw [hstate]
    exact hstate
  | dies =>
    rw [ho] at hrecorded
    rw [hrecorded.trans hinFlight]
    exact promise_setPromise_self h₂has _

/-- A promise of a batch that waits for its task comes to the result of the task. -/
theorem promise_awaitIn_of_registered {arrange : List Task → List Task}
    (harrange : ∀ tasks, (arrange tasks).Perm tasks) {ids : List PromiseId} {ty : TypeId}
    {task : Outcome} (hp : h.promise id = .registered ty task) (hin : id ∈ ids) :
    (awaitIn arrange ids h).2.promise id = .settled (task.result id) := by
  have hid : h.Has (.promise id) := has_of_registered hp
  obtain ⟨hinFlight, htasks⟩ := start_of_registered hid hp hin
  -- The task is the only one of the promise, wherever it comes among the others.
  have harranged : (arrange (start ids h).1).filter (·.id = id) = [⟨id, task⟩] := by
    have hperm := (harrange (start ids h).1).filter fun t => decide (t.id = id)
    rw [htasks] at hperm
    exact List.perm_singleton.mp hperm
  obtain ⟨h₁, hsize₁, hstate₁, hrecord⟩ := promise_foldl_of_single promise_record_of_ne
    size_promises_record harranged (start ids h).2
  obtain ⟨h₂, hsize₂, hstate₂, hlost⟩ := promise_foldl_of_single promise_recordLost_of_ne
    size_promises_recordLost htasks ((arrange (start ids h).1).foldl record (start ids h).2)
  have hsize := (size_promises_foldl size_promises_record (arrange (start ids h).1)
    (start ids h).2).trans (size_promises_start ids h)
  have h₁has : h₁.Has (.promise id) := by
    rw [Has, hsize₁, size_promises_start]
    exact hid
  have h₂has : h₂.Has (.promise id) := by
    rw [Has, hsize₂, hsize]
    exact hid
  have hresult : ((h₂.recordLost ⟨id, task⟩).promise id) = .settled (task.result id) :=
    promise_recordLost_record h₁has h₂has (hstate₁.trans hinFlight) (hstate₂.trans hrecord)
  exact hlost.trans hresult

/-- A batch leaves the promises alone that it is not given, or that do not wait for a task. -/
theorem promise_awaitIn_of_not_waiting {arrange : List Task → List Task}
    (harrange : ∀ tasks, (arrange tasks).Perm tasks) {ids : List PromiseId}
    (hp : id ∈ ids → (h.promise id).isPending = false) :
    (awaitIn arrange ids h).2.promise id = h.promise id := by
  obtain ⟨hstate, htasks⟩ := start_of_not_waiting hp
  have harranged : ∀ t ∈ arrange (start ids h).1, t.id ≠ id := fun t ht =>
    htasks t ((harrange _).subset ht)
  calc (awaitIn arrange ids h).2.promise id
      = ((arrange (start ids h).1).foldl record (start ids h).2).promise id :=
        promise_foldl_of_ne promise_recordLost_of_ne htasks _
    _ = (start ids h).2.promise id := promise_foldl_of_ne promise_record_of_ne harranged _
    _ = h.promise id := hstate

/-- **A batch gives each promise the result of its own task**, in whatever order the tasks finish, and
leaves all other promises as they are. -/
theorem promise_awaitIn {arrange : List Task → List Task}
    (harrange : ∀ tasks, (arrange tasks).Perm tasks) (ids : List PromiseId) (h : Heap)
    (id : PromiseId) :
    (awaitIn arrange ids h).2.promise id =
      if id ∈ ids then (h.promise id).ended id else h.promise id := by
  split
  case isTrue hin =>
    cases hp : h.promise id with
    | registered ty task => exact promise_awaitIn_of_registered harrange hp hin
    | _ =>
      have hidle : (h.promise id).isPending = false := by
        rw [hp]
        rfl
      exact (promise_awaitIn_of_not_waiting harrange fun _ => hidle).trans hp
  case isFalse hnot =>
    exact promise_awaitIn_of_not_waiting harrange fun hin => absurd hin hnot

/-- A batch makes no promises. -/
theorem size_promises_awaitIn (arrange : List Task → List Task) (ids : List PromiseId) (h : Heap) :
    (awaitIn arrange ids h).2.promises.size = h.promises.size :=
  (size_promises_foldl size_promises_recordLost _ _).trans
    ((size_promises_foldl size_promises_record _ _).trans (size_promises_start ids h))

/-! ## What does not depend on promises -/

/-- Running a batch leaves as it is whatever does not depend on the states of promises. -/
theorem awaitIn_keeps {β : Type} (part : Heap → β)
    (hset : ∀ h id p, part (h.setPromise id p) = part h) (arrange : List Task → List Task)
    (ids : List PromiseId) (h : Heap) : part (Heap.awaitIn arrange ids h).2 = part h := by
  have hstart : part (Heap.start ids h).2 = part h := by
    induction ids generalizing h with
    | nil => rfl
    | cons id ids ih =>
      simp only [Heap.start]
      split
      · exact (ih _).trans (hset _ _ _)
      · exact ih h
  have hfold {step : Heap → Task → Heap} (hstep : ∀ h task, part (step h task) = part h)
      (tasks : List Task) (h : Heap) : part (tasks.foldl step h) = part h := by
    induction tasks generalizing h with
    | nil => rfl
    | cons task tasks ih => exact (ih _).trans (hstep h task)
  have hrecord (h : Heap) (task : Task) : part (h.record task) = part h := by
    unfold Heap.record
    split
    · exact hset _ _ _
    · exact hset _ _ _
    · rfl
  have hlost (h : Heap) (task : Task) : part (h.recordLost task) = part h := by
    unfold Heap.recordLost
    split
    · exact hset _ _ _
    · rfl
  exact (hfold hlost _ _).trans ((hfold hrecord _ _).trans hstart)

/-- Running a batch leaves all instances as they are. -/
theorem instances_await (ids : List PromiseId) (h : Heap) :
    (Heap.await ids h).2.instances = h.instances :=
  awaitIn_keeps Heap.instances (fun _ _ _ => rfl) id ids h

/-- Running a batch leaves all scopes as they are. -/
theorem scopes_await (ids : List PromiseId) (h : Heap) :
    (Heap.await ids h).2.scopes = h.scopes :=
  awaitIn_keeps Heap.scopes (fun _ _ _ => rfl) id ids h

/-! ## What can happen to promises -/

/-- Promises stay as they are, and those that are new wait for their tasks. -/
structure Spawns (h h' : Heap) : Prop where
  /-- No promise is removed. -/
  size : h.promises.size ≤ h'.promises.size
  /-- Promises stay as they are. -/
  kept : ∀ {id}, h.Has (.promise id) → h'.promise id = h.promise id
  /-- New promises are registered with their tasks. -/
  fresh : ∀ {id}, ¬ h.Has (.promise id) → h'.Has (.promise id) →
    ∃ ty task, h'.promise id = .registered ty task

/-- Promises move forward or stay as they are, and those that are new began by waiting for their
tasks. -/
structure Advances (h h' : Heap) : Prop where
  /-- No promise is removed. -/
  size : h.promises.size ≤ h'.promises.size
  /-- Promises move forward. -/
  forward : ∀ {id}, h.Has (.promise id) → (h.promise id).Forward id (h'.promise id)
  /-- New promises have come from where they wait for their tasks. -/
  fresh : ∀ {id}, ¬ h.Has (.promise id) → h'.Has (.promise id) →
    ∃ ty task, (Promise.registered ty task).Forward id (h'.promise id)

namespace Spawns

/-- The same promises. -/
theorem of_promises_eq (heq : h'.promises = h.promises) : h.Spawns h' where
  size := Nat.le_of_eq (congrArg Array.size heq).symm
  kept _ := by rw [promise, promise, heq]
  fresh hnot hid := by
    rw [Has, heq] at hid
    exact absurd hid hnot

/-- Where promises are left alone twice, they are left alone. -/
theorem trans (a : h.Spawns h') (b : h'.Spawns h'') : h.Spawns h'' where
  size := Nat.le_trans a.size b.size
  kept hid := (b.kept (Nat.lt_of_lt_of_le hid a.size)).trans (a.kept hid)
  fresh {id} hnot hid := by
    by_cases hid' : h'.Has (.promise id)
    · rw [b.kept hid']
      exact a.fresh hnot hid'
    · exact b.fresh hid' hid

/-- A new promise. -/
theorem allocPromise (ty : TypeId) (task : Outcome) :
    h.Spawns (h.allocPromise (.registered ty task)).2 where
  size := by simp [Heap.allocPromise]
  kept {id} hid := by
    simp only [Heap.allocPromise, promise, getD_push]
    rw [if_neg (Nat.ne_of_lt hid)]
  fresh {id} hnot hid := by
    have hnew : id.index = h.promises.size := by
      simp only [Has, Heap.allocPromise, Array.size_push] at hnot hid
      omega
    refine ⟨ty, task, ?_⟩
    simp only [Heap.allocPromise, promise, getD_push]
    rw [if_pos hnew]

/-- Promises that are left alone advance. -/
theorem advances (a : h.Spawns h') : h.Advances h' where
  size := a.size
  forward hid := by
    rw [a.kept hid]
    exact .refl
  fresh hnot hid := by
    obtain ⟨ty, task, heq⟩ := a.fresh hnot hid
    refine ⟨ty, task, ?_⟩
    rw [heq]
    exact .refl

end Spawns

namespace Advances

/-- Nothing has happened. -/
theorem refl : h.Advances h := (Spawns.of_promises_eq rfl).advances

/-- What advances twice advances. -/
theorem trans (a : h.Advances h') (b : h'.Advances h'') : h.Advances h'' where
  size := Nat.le_trans a.size b.size
  forward hid := (a.forward hid).trans (b.forward (Nat.lt_of_lt_of_le hid a.size))
  fresh {id} hnot hid := by
    by_cases hid' : h'.Has (.promise id)
    · obtain ⟨ty, task, hforward⟩ := a.fresh hnot hid'
      exact ⟨ty, task, hforward.trans (b.forward hid')⟩
    · exact b.fresh hid' hid

/-- Promises on a heap of the same size that all move forward. -/
theorem of_size_eq (hsize : h'.promises.size = h.promises.size)
    (hforward : ∀ {id}, h.Has (.promise id) → (h.promise id).Forward id (h'.promise id)) :
    h.Advances h' where
  size := Nat.le_of_eq hsize.symm
  forward := hforward
  fresh hnot hid := by
    rw [Has, hsize] at hid
    exact absurd hid hnot

/-- A read. -/
theorem readPromise (h : Heap) (id : PromiseId) : h.Advances (h.readPromise id).2 := by
  refine of_size_eq (size_promises_readPromise h id) fun {other} hother => ?_
  by_cases hne : other = id
  · subst hne
    exact forward_readPromise hother
  · rw [promise_readPromise_of_ne hne]
    exact .refl

/-- A batch. -/
theorem awaitIn {arrange : List Task → List Task} (harrange : ∀ tasks, (arrange tasks).Perm tasks)
    (ids : List PromiseId) (h : Heap) : h.Advances (h.awaitIn arrange ids).2 := by
  refine of_size_eq (size_promises_awaitIn arrange ids h) fun {id} _ => ?_
  rw [promise_awaitIn harrange]
  split
  · exact Promise.forward_ended id _
  · exact .refl

end Advances

end Heap

end ObjectGraph
