import ObjectGraph.Check.Bindings
import ObjectGraph.Types.Lineage

/-!
# Assignability

Whether a value of one type may flow into a slot of another. Arrays are compared by element and
functions part by part; all other types by subclassing. `any` takes everything. Poison goes with
everything in both directions and at any depth, so that one malformed declaration does not make
every use of it an error.

A target placeholder that is being inferred takes whatever the source is and is bound to it, or
checks the source against its earlier binding.
-/

namespace ObjectGraph

/-- Compares two lists pair by pair from the left and stops at the first pair that fails. Lists of
different lengths do not match. -/
def allPairs {σ : Type} (test : TypeId → TypeId → σ → Bool × σ) :
    List TypeId → List TypeId → σ → Bool × σ
  | [], [], s => (true, s)
  | a :: as, b :: bs, s =>
    match test a b s with
    | (true, s) => allPairs test as bs s
    | (false, s) => (false, s)
  | _, _, s => (false, s)

namespace Registry

/-- Whether `source` may be used as `target`, with the bindings that follow from it, as far as
`fuel` reaches. -/
def assignableWithin (r : Registry) : Nat → TypeId → TypeId → Bindings → Bool × Bindings
  | 0, _, _, b => (false, b)
  | fuel + 1, source, target, b =>
    if source = target || r.isPoison source || r.isPoison target || target = .any then (true, b)
    else if b.isInferable target then
      if b.isInferable source then b.link source target
      else
        match b.value? target with
        | some bound => ((r.assignableWithin fuel source bound .empty).1, b)
        | none => (true, b.bind target source)
    else if b.isInferable source then
      match b.value? source with
      | some bound => r.assignableWithin fuel bound target b
      | none => (true, b)
    else
      match r.kind source, r.kind target with
      | .array s, .array t => r.assignableWithin fuel s t b
      | .function sourceParams sourceResult, .function targetParams targetResult =>
        if sourceParams.length ≠ targetParams.length then (false, b)
        else
          match allPairs (r.assignableWithin fuel) sourceParams targetParams b with
          | (true, b) => r.assignableWithin fuel sourceResult targetResult b
          | (false, b) => (false, b)
      | _, _ => (r.isSubclass source target, b)

/-- Whether `source` may be used as `target`, with the bindings that follow from it. Each step
into a shape goes to an earlier type, and at most two steps in a row stay at the same depth. -/
def infer (r : Registry) (source target : TypeId) (b : Bindings) : Bool × Bindings :=
  r.assignableWithin (3 * r.size + 3) source target b

/-- Whether `source` may be used as `target` when nothing is inferred. -/
def assignable (r : Registry) (source target : TypeId) : Bool :=
  (r.infer source target .empty).1

end Registry

end ObjectGraph
