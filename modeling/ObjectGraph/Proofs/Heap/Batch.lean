import Mathlib.Data.Finset.Card
import Mathlib.Data.Finset.Dedup
import ObjectGraph.Proofs.Heap.Promises

/-!
# What a batch of promises leaves behind

The tasks of a batch finish in an order that nobody controls. A batch is given by the promises
that it lists, which may repeat and may be in any state, and by the order in which the tasks that
it starts come to an end. One task is started for each promise that waits for one, however often
the promise is listed (`count_ids_start`). When the batch has ended, these promises are settled
with the results of their own tasks and everything else is as before (`Batched`), whatever the
order (`batched_awaitIn`).
-/

namespace ObjectGraph

namespace Heap

variable {h h' : Heap}

/-- The promises of a list that wait for their tasks. -/
def pendingAmong (ids : List PromiseId) (h : Heap) : Finset PromiseId :=
  ids.toFinset.filter fun id => (h.promise id).isPending = true

/-- What a batch makes of a heap: how many tasks it has run, and the heap that it leaves. -/
structure Batched (ids : List PromiseId) (h : Heap) (count : ℕ) (h' : Heap) : Prop where
  /-- One task is run for each promise listed that waits for its task. -/
  count : count = (h.pendingAmong ids).card
  /-- Each of these is settled with the result of its own task. A task that dies has failed. -/
  settled : ∀ id ∈ ids, ∀ ty task, h.promise id = .registered ty task →
    h'.promise id = .settled (task.result id)
  /-- The other promises stay as they are. -/
  others : ∀ id, id ∉ h.pendingAmong ids → h'.promise id = h.promise id
  /-- No promise is left in flight by the batch. -/
  landed : ∀ id ∈ h.pendingAmong ids, ∀ ty, h'.promise id ≠ .inFlight ty
  /-- No promise is added or removed. -/
  promises : h'.promises.size = h.promises.size
  /-- The scopes stay as they are. -/
  scopes : h'.scopes = h.scopes
  /-- The instances stay as they are. -/
  instances : h'.instances = h.instances

/-- The promises that wait are those that are registered with their tasks. -/
theorem mem_pendingAmong {ids : List PromiseId} {id : PromiseId} :
    id ∈ h.pendingAmong ids ↔ id ∈ ids ∧ ∃ ty task, h.promise id = .registered ty task := by
  rw [pendingAmong, Finset.mem_filter, List.mem_toFinset]
  cases hp : h.promise id <;> simp [Promise.isPending]

/-- A promise that is not among those that wait does not wait if it is listed. -/
theorem isPending_of_not_mem_pendingAmong {ids : List PromiseId} {id : PromiseId}
    (hnot : id ∉ h.pendingAmong ids) (hlisted : id ∈ ids) : (h.promise id).isPending = false := by
  cases hp : h.promise id with
  | registered ty task => exact absurd (mem_pendingAmong.mpr ⟨hlisted, ty, task, hp⟩) hnot
  | _ => rfl

/-- Two heaps with the same scopes and instances, and with the same promises in the same states. -/
theorem eq_of_promise_eq (hscopes : h'.scopes = h.scopes) (hinstances : h'.instances = h.instances)
    (hsize : h'.promises.size = h.promises.size) (hstates : ∀ id, h'.promise id = h.promise id) :
    h' = h := by
  have hpromises : h'.promises = h.promises := by
    refine Array.ext hsize fun i hi hi' => ?_
    simpa [promise, hi, hi'] using hstates ⟨i⟩
  cases h
  cases h'
  simp_all

/-- A batch starts one task for a promise that waits and none for any other, however often the
promise is listed. -/
theorem count_ids_start (ids : List PromiseId) (h : Heap) (id : PromiseId) :
    ((start ids h).1.map (·.id)).count id = if id ∈ h.pendingAmong ids then 1 else 0 := by
  split
  case isTrue hin =>
    obtain ⟨hlisted, ty, task, hp⟩ := mem_pendingAmong.mp hin
    obtain ⟨-, htasks⟩ := start_of_registered (has_of_registered hp) hp hlisted
    have hone := congrArg List.length htasks
    rw [← List.countP_eq_length_filter] at hone
    rw [List.count, List.countP_map]
    exact (List.countP_congr fun task _ => by simp).trans hone
  case isFalse hnot =>
    obtain ⟨-, htasks⟩ := start_of_not_waiting (isPending_of_not_mem_pendingAmong hnot)
    refine List.count_eq_zero.mpr fun hin => ?_
    obtain ⟨task, htask, heq⟩ := List.mem_map.mp hin
    exact htasks task htask heq

/-- A batch starts as many tasks as there are promises that wait for one. -/
theorem length_start (ids : List PromiseId) (h : Heap) :
    (start ids h).1.length = (h.pendingAmong ids).card := by
  -- The tasks are told apart by their promises, and these are the promises that wait.
  have hnodup : ((start ids h).1.map (·.id)).Nodup := by
    refine List.nodup_iff_count_le_one.mpr fun id => ?_
    rw [count_ids_start]
    split <;> omega
  have hset : ((start ids h).1.map (·.id)).toFinset = h.pendingAmong ids := by
    ext id
    rw [List.mem_toFinset, ← List.count_pos_iff, count_ids_start]
    split <;> simp_all
  rw [← hset, List.toFinset_card_of_nodup hnodup, List.length_map]

/-- **A batch loses nothing, in any order of completion.** Each task that is started reports once,
in the order that `arrange` puts them in. Whatever promises are listed, however often and in
whatever states: those that wait for their tasks are settled, each with the result of its own
task, everything else stays as it is, and the answer is their number. Any other order leaves the
same heap. -/
theorem batched_awaitIn {arrange : List Task → List Task}
    (harrange : ∀ tasks, (arrange tasks).Perm tasks) (ids : List PromiseId) (h : Heap) :
    h.Batched ids (awaitIn arrange ids h).1 (awaitIn arrange ids h).2 ∧
      ∀ arrange' : List Task → List Task, (∀ tasks, (arrange' tasks).Perm tasks) →
        awaitIn arrange' ids h = awaitIn arrange ids h := by
  have hsettled {id : PromiseId} {ty : TypeId} {task : Outcome} (hlisted : id ∈ ids)
      (hp : h.promise id = .registered ty task) :
      (awaitIn arrange ids h).2.promise id = .settled (task.result id) :=
    promise_awaitIn_of_registered harrange hp hlisted
  constructor
  · refine ⟨length_start ids h, fun id hlisted ty task hp => hsettled hlisted hp,
      fun id hnot => ?_, fun id hin ty => ?_, size_promises_awaitIn arrange ids h,
      awaitIn_keeps Heap.scopes (fun _ _ _ => rfl) arrange ids h,
      awaitIn_keeps Heap.instances (fun _ _ _ => rfl) arrange ids h⟩
    · exact promise_awaitIn_of_not_waiting harrange (isPending_of_not_mem_pendingAmong hnot)
    · obtain ⟨hlisted, registered, task, hp⟩ := mem_pendingAmong.mp hin
      rw [hsettled hlisted hp]
      exact fun hc => by cases hc
  · intro arrange' harrange'
    -- The same tasks are started, and no promise can tell the order in which they have ended.
    refine Prod.ext rfl (eq_of_promise_eq ?_ ?_ ?_ fun id => ?_)
    · exact (awaitIn_keeps Heap.scopes (fun _ _ _ => rfl) arrange' ids h).trans
        (awaitIn_keeps Heap.scopes (fun _ _ _ => rfl) arrange ids h).symm
    · exact (awaitIn_keeps Heap.instances (fun _ _ _ => rfl) arrange' ids h).trans
        (awaitIn_keeps Heap.instances (fun _ _ _ => rfl) arrange ids h).symm
    · exact (size_promises_awaitIn arrange' ids h).trans (size_promises_awaitIn arrange ids h).symm
    · exact (promise_awaitIn harrange' ids h id).trans (promise_awaitIn harrange ids h id).symm

/-- Four promises: one whose task returns, one whose task dies, one that is settled already, and one
that is in flight already. -/
def fourPromises : Heap where
  scopes := #[]
  instances := #[]
  promises := #[.registered ⟨3⟩ (.returns (.missing ⟨3⟩)), .registered ⟨3⟩ .dies,
    .settled (.error "no such file"), .inFlight ⟨3⟩]

/-- All four are listed, the first one twice, and the tasks end in the opposite order to that in
which they have been started. -/
theorem batched_awaitIn_reverse :
    (∀ tasks : List Task, tasks.reverse.Perm tasks) ∧
      (awaitIn List.reverse [⟨0⟩, ⟨1⟩, ⟨0⟩, ⟨2⟩, ⟨3⟩] fourPromises).1 = 2 ∧
      (awaitIn List.reverse [⟨0⟩, ⟨1⟩, ⟨0⟩, ⟨2⟩, ⟨3⟩] fourPromises).2.promise ⟨1⟩ =
        .settled (.error "promise task failed: promise#1") ∧
      awaitIn id [⟨0⟩, ⟨1⟩, ⟨0⟩, ⟨2⟩, ⟨3⟩] fourPromises =
        awaitIn List.reverse [⟨0⟩, ⟨1⟩, ⟨0⟩, ⟨2⟩, ⟨3⟩] fourPromises := by
  have hreverse (tasks : List Task) : tasks.reverse.Perm tasks := List.reverse_perm tasks
  obtain ⟨hbatched, hany⟩ := batched_awaitIn hreverse [⟨0⟩, ⟨1⟩, ⟨0⟩, ⟨2⟩, ⟨3⟩] fourPromises
  refine ⟨hreverse, hbatched.count, ?_, hany id fun tasks => .rfl⟩
  exact hbatched.settled ⟨1⟩ (by decide) ⟨3⟩ .dies rfl

end Heap

end ObjectGraph
