import ObjectGraph.Heap.Basic

/-!
# Promise batches

Promises that wait for their tasks are run together. All tasks of a batch are started, their
results are recorded as they come in, and a task that died without a result is recorded as failed
at the end. The order in which tasks finish is given from outside; each result goes to its own
promise, whatever the order.
-/

namespace ObjectGraph

/-- A started task and the promise it answers. -/
structure Task where
  /-- The promise. -/
  id : PromiseId
  /-- What the task comes to. -/
  outcome : Outcome

namespace Heap

/-- Starts the tasks of those promises among `ids` that wait for one. -/
def start : List PromiseId → Heap → List Task × Heap
  | [], h => ([], h)
  | id :: ids, h =>
    match h.promise id with
    | .registered ty task =>
      let (tasks, h) := start ids (h.setPromise id (.inFlight ty))
      (⟨id, task⟩ :: tasks, h)
    | _ => start ids h

/-- Records the result of a task that has finished. One that died reports nothing. -/
def record (h : Heap) (task : Task) : Heap :=
  match task.outcome with
  | .returns value => h.setPromise task.id (.settled (.ok value))
  | .rejects message => h.setPromise task.id (.settled (.error message))
  | .dies => h

/-- Records a task without a result as failed. -/
def recordLost (h : Heap) (task : Task) : Heap :=
  match h.promise task.id with
  | .inFlight _ =>
    h.setPromise task.id (.settled (.error ("promise task failed: " ++ task.id.text)))
  | _ => h

/-- Runs a batch whose tasks finish in the order that `arrange` puts them in, and answers how many
tasks there were. -/
def awaitIn (arrange : List Task → List Task) (ids : List PromiseId) (h : Heap) : Nat × Heap :=
  let (tasks, h) := start ids h
  let h := (arrange tasks).foldl record h
  (tasks.length, tasks.foldl recordLost h)

/-- Runs a batch whose tasks finish in the order in which they were started. -/
def await (ids : List PromiseId) (h : Heap) : Nat × Heap := awaitIn id ids h

end Heap

end ObjectGraph
