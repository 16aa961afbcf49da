import ObjectGraph.Plugin.Basic

/-!
# Sealing

An instance becomes final once all its values are terminal and every instance they refer to is
final or becomes final in the same pass. The set of instances that do is the largest one with that
property, so that finished instances that refer to each other in a circle are sealed together.
-/

namespace ObjectGraph

variable {σ : Type}

namespace Heap

/-- Whether an instance is not final but has nothing left to evaluate. -/
def isFinished (h : Heap) (id : InstanceId) : Bool :=
  !(h.get id).sealed && (h.get id).values.all Expr.isTerminal

/-- Whether every instance that the values of `id` refer to is final or one of `others`. -/
def isSupported (h : Heap) (others : List InstanceId) (id : InstanceId) : Bool :=
  (h.get id).values.all fun e =>
    match e.referent with
    | some r => (h.get r).sealed || others.contains r
    | none => true

/-- Drops unsupported instances until none is left, for at most `fuel` rounds. -/
def largestSupported (h : Heap) : Nat → List InstanceId → List InstanceId
  | 0, ids => ids
  | fuel + 1, ids =>
    let kept := ids.filter (h.isSupported ids)
    if kept.length = ids.length then ids else h.largestSupported fuel kept

/-- The instances among `ids` that can be sealed together. A round that goes on drops at least one
instance, which bounds the rounds. -/
def sealable (h : Heap) (ids : List InstanceId) : List InstanceId :=
  let finished := ids.filter h.isFinished
  h.largestSupported finished.length finished

end Heap

namespace Effect

/-- Seals one instance and tells the plugin of its type. -/
def sealOne (natives : Natives σ) (id : InstanceId) : Effect σ Unit := do
  let ty := (← instanceOf id).ty
  modifyHeap (Heap.modifyInstance id fun i => { i with sealed := true })
  (← pluginFor natives ty).onSeal id

/-- Seals instances in order, and answers how many. -/
def sealEach (natives : Natives σ) : List InstanceId → Effect σ Nat
  | [] => pure 0
  | id :: ids => do
    sealOne natives id
    return (← sealEach natives ids) + 1

/-- Seals what can be sealed among discovered instances. What was discovered last is sealed first,
so that parts come before what they are part of. -/
def sealDiscovered (natives : Natives σ) (ids : List InstanceId) : Effect σ Nat := do
  let chosen ← read (·.heap.sealable ids)
  sealEach natives (ids.reverse.filter chosen.contains)

end Effect

end ObjectGraph
