import ObjectGraph.Heap.Basic
import ObjectGraph.Heap.Listing
import ObjectGraph.Tree.Traverse

/-!
# Discovery

Discovery collects what is reachable from a root instance. A scope leads to its parent, its
receiver and the handles in its bindings. An instance leads to its constructor scopes and the
handles in its values, unless it is final, in which case it is neither listed nor followed. The
search goes in rounds: each round visits what the round before has found, in the order in which it
was found.
-/

namespace ObjectGraph

/-- Something on the heap that an expression can mention. -/
inductive Node where
  | scope (id : ScopeId)
  | object (id : InstanceId)
  | promise (id : PromiseId)
deriving DecidableEq, Repr

/-- What one node of a tree mentions itself, without its children. -/
def Expr.ownHandles : Expr → List Node
  | .object id => [.object id]
  | .function _ receiver => [.object receiver]
  | .scoped scope _ => [.scope scope]
  | .promise id _ => [.promise id]
  | _ => []

/-- Everything that a tree mentions, in the order of traversal. -/
def Expr.handles (e : Expr) : List Node := e.preorder.flatMap Expr.ownHandles

namespace Heap

/-- What a promise with a result stands for mentions. -/
def resultHandles (h : Heap) (id : PromiseId) : List Node :=
  match h.promise id with
  | .resolved value => value.handles
  | _ => []

/-- What one node of a tree mentions, with the result of a resolved promise counted in. -/
def ownHandles (h : Heap) (e : Expr) : List Node :=
  match e with
  | .promise id _ => .promise id :: h.resultHandles id
  | e => e.ownHandles

/-- Everything that a tree mentions, with the results of resolved promises counted in. -/
def handles (h : Heap) (e : Expr) : List Node := e.preorder.flatMap h.ownHandles

/-- What a scope leads to. -/
def scopeEdges (h : Heap) (id : ScopeId) : List Node :=
  let s := h.scope id
  s.parent.toList.map .scope ++ s.receiver.toList.map .object ++
    s.bindings.flatMap fun b => h.handles b.expr

/-- What an instance that is not final leads to. -/
def instanceEdges (h : Heap) (id : InstanceId) : List Node :=
  let i := h.get id
  i.scopes.map (fun entry => .scope entry.2) ++ i.values.flatMap h.handles

end Heap

/-- What is reachable from a root, in order of discovery. -/
structure Discovery where
  /-- The scopes. -/
  scopes : Listing .scope
  /-- The instances that are not final. -/
  instances : Listing .object
  /-- The promises. -/
  promises : Listing .promise

/-- Nothing found yet on a heap. -/
def Heap.nothingFound (h : Heap) : Discovery where
  scopes := .ofSize h.scopes.size
  instances := .ofSize h.instances.size
  promises := .ofSize h.promises.size

/-- Visits a node: lists it and answers what it leads to, unless it has been listed before. -/
def Heap.visit (h : Heap) (found : Discovery) : Node → Discovery × List Node
  | .scope id =>
    if found.scopes.contains id then (found, [])
    else ({ found with scopes := found.scopes.push id }, h.scopeEdges id)
  | .object id =>
    if (h.get id).sealed || found.instances.contains id then (found, [])
    else ({ found with instances := found.instances.push id }, h.instanceEdges id)
  | .promise id =>
    if found.promises.contains id then (found, [])
    else ({ found with promises := found.promises.push id }, [])

/-- Visits nodes in order, and answers what they lead to in order. -/
def Heap.visitAll (h : Heap) : List Node → Discovery → Discovery × List Node
  | [], found => (found, [])
  | node :: nodes, found =>
    let (found, edges) := h.visit found node
    let (found, rest) := h.visitAll nodes found
    (found, edges ++ rest)

/-- Searches for as many rounds as `fuel`, or until a round has nothing to visit. -/
def Heap.discoverWithin (h : Heap) : Nat → List Node → Discovery → Discovery
  | 0, _, found => found
  | _ + 1, [], found => found
  | fuel + 1, nodes, found =>
    let (found, next) := h.visitAll nodes found
    h.discoverWithin fuel next found

/-- What is reachable from an instance. Every round but the last lists something new, so there are
no more rounds than there are things on the heap, and one. -/
def Heap.discover (h : Heap) (root : InstanceId) : Discovery :=
  h.discoverWithin (h.scopes.size + h.instances.size + h.promises.size + 1) [.object root]
    h.nothingFound

end ObjectGraph
