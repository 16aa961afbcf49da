import ObjectGraph.Config.Settings
import ObjectGraph.Run.Batch
import ObjectGraph.Run.Discover
import ObjectGraph.Run.Reduce
import ObjectGraph.Run.Seal

/-!
# Evaluation

A sweep discovers what is reachable from the root, takes one pass over every cell found that is
not terminal yet, and seals what is finished. Sweeps are repeated until one of them changes
nothing. Then all promises that are still waiting are run as one batch, and sweeping goes on.
Evaluation ends when a sweep changes nothing and no promise waits. By then the root must be
sealed: otherwise some cells wait for each other for ever, which is an error like running out of
sweeps.
-/

namespace ObjectGraph

variable {σ : Type}

/-- The work done by one sweep. -/
structure SweepCost where
  /-- The scopes found. -/
  scopes : Nat
  /-- The instances found that were not final. -/
  instances : Nat
  /-- The reductions made. -/
  reductions : Nat
  /-- The instances sealed. -/
  sealed : Nat
deriving DecidableEq, Repr

/-- Whether a sweep changed anything. -/
def SweepCost.isProductive (cost : SweepCost) : Bool := cost.reductions != 0 || cost.sealed != 0

/-- The work done by an evaluation. -/
structure RunStats where
  /-- The sweeps, in order. -/
  sweeps : List SweepCost := []
  /-- The number of promise batches. -/
  batches : Nat := 0
deriving DecidableEq, Repr

/-- The reductions made in all sweeps. -/
def RunStats.reductions (stats : RunStats) : Nat := stats.sweeps.foldr (·.reductions + ·) 0

namespace Effect

/-- One pass over an expression that lies in a scope, or in none, with the number of reductions. -/
def pass (natives : Natives σ) (scope : Option ScopeId) (e : Expr) : Effect σ (Expr × Nat) :=
  fun w =>
    match e.reduce natives scope ⟨w, 0⟩ with
    | .ok e s => .ok (e, s.reductions) s.world
    | .error error s => .error error s.world

/-- One pass over what a cell holds, unless that is terminal. If the pass fails, the cell keeps
what it held. -/
def sweepCell (natives : Natives σ) (cell : Cell) : Effect σ Nat := do
  match ← read (·.heap.read? cell) with
  | none => pure 0
  | some e =>
    if e.isTerminal then pure 0
    else
      let (next, reductions) ← pass natives none e
      modifyHeap (·.write cell next)
      pure reductions

/-- Takes a counting step for each item in turn, and answers the sum of the counts. -/
def sumOver {α : Type} (step : α → Effect σ Nat) : List α → Effect σ Nat
  | [] => pure 0
  | item :: items => do
    let count ← step item
    return count + (← sumOver step items)

/-- One pass over the bindings of a scope. -/
def sweepScope (natives : Natives σ) (order : SweepOrder) (id : ScopeId) : Effect σ Nat := do
  sumOver (sweepCell natives) (order.arrange (← read (·.heap.bindingCells id)))

/-- One pass over the properties of an instance, and then over its elements. -/
def sweepInstance (natives : Natives σ) (order : SweepOrder) (id : InstanceId) :
    Effect σ Nat := do
  let slots ← sumOver (sweepCell natives) (order.arrange (← read (·.heap.slotCells id)))
  let elements ← sumOver (sweepCell natives) (order.arrange (← read (·.heap.elementCells id)))
  return slots + elements

/-- One sweep over what is reachable from the root: scopes, then instances, then sealing. -/
def sweep (natives : Natives σ) (order : SweepOrder) (root : InstanceId) :
    Effect σ SweepCost := do
  let found ← read (·.heap.discover root)
  let scopes ← sumOver (sweepScope natives order) (order.arrange found.scopes.toList)
  let instances ← sumOver (sweepInstance natives order) (order.arrange found.instances.toList)
  let sealed ← sealDiscovered natives found.instances.toList
  return ⟨found.scopes.size, found.instances.size, scopes + instances, sealed⟩

/-- The promises reachable from the root whose tasks have not been started. -/
def waiting (root : InstanceId) : Effect σ (List PromiseId) :=
  read fun w => (w.heap.discover root).promises.toList.filter fun id => (w.heap.promise id).isPending

/-- Sweeps until nothing is left to do, with at most `left` sweeps more. -/
def runFrom (natives : Natives σ) (order : SweepOrder) (root : InstanceId) :
    Nat → RunStats → Effect σ RunStats
  | 0, stats => throw (.nonTermination stats.sweeps.length)
  | left + 1, stats => do
    let cost ← sweep natives order root
    let stats := { stats with sweeps := stats.sweeps ++ [cost] }
    if cost.isProductive then runFrom natives order root left stats
    else
      match ← waiting root with
      | [] =>
        if (← instanceOf root).sealed then return stats
        else throw (.nonTermination stats.sweeps.length)
      | ids =>
        let _ ← onHeap (Heap.await ids)
        runFrom natives order root left { stats with batches := stats.batches + 1 }

/-- Evaluates everything below an instance. -/
def run (natives : Natives σ) (settings : Settings) (root : InstanceId) : Effect σ RunStats :=
  runFrom natives settings.order root settings.maxSweeps {}

end Effect

end ObjectGraph
