import ObjectGraph.Proofs.Body.Mentions

/-!
# Discovery is exact

What a heap's edges are is said here without the traversal that discovery uses: an expression
points to what it is itself, to what its parts point to, and through a resolved promise to what the
promise's result points to (`Heap.PointsTo`); a scope leads to its parent, its receiver and what its
bindings point to, and an instance that is not final to its constructor scopes and what its values
point to (`Heap.Edge`). On a heap whose promises resolve to instances or missing values, as reading
them makes them do, this is where discovery goes. It lists every scope, every open instance and
every promise that can be reached from the root, lists each once, and has come to its end by then
(`Heap.discover_exact`).
-/

namespace ObjectGraph

/-! ## The parts of an expression -/

/-- The expressions that an expression is made of, those of a block's statements included. -/
def Expr.children : Expr → List Expr
  | .array elements _ => elements
  | .member owner _ _ => [owner]
  | .index owner position _ => [owner, position]
  | .binary _ lhs rhs _ => [lhs, rhs]
  | .unary _ operand _ => [operand]
  | .new _ args => args
  | .call callee args _ _ => callee :: args
  | .hooked operand _ _ => [operand]
  | .scoped _ body => [body]
  | .block stmts _ => stmtsExprs stmts
  | .scalar _ | .object _ | .this _ | .param _ _ | .variable _ _ | .promise _ _ | .missing _
  | .unbound _ | .function _ _ => []

/-- The traversal of a list of trees goes through each of them. -/
theorem preorderAll_eq (es : List Expr) : preorderAll es = es.flatMap Expr.preorder := by
  induction es with
  | nil => rfl
  | cons e es ih => rw [preorderAll, ih, List.flatMap_cons]

/-- The traversal of an expression goes through its parts. -/
theorem Expr.preorder_eq (e : Expr) : e.preorder = e :: e.children.flatMap Expr.preorder := by
  cases e with
  | array elements _ => rw [preorder, preorderAll_eq, children]
  | new _ args => rw [preorder, preorderAll_eq, children]
  | call callee args _ _ => rw [preorder, preorderAll_eq, children, List.flatMap_cons]
  | block stmts _ => rw [preorder, preorderStmts_eq, children]
  | _ => simp [preorder, children]

mutual

/-- The expressions of a statement are smaller than it. -/
theorem sizeOf_lt_of_mem_exprs {e : Expr} :
    ∀ {stmt : Stmt}, e ∈ stmt.exprs → sizeOf e < sizeOf stmt
  | .branch cond whenTrue whenFalse, he => by
    rw [Stmt.branch.sizeOf_spec]
    rcases List.mem_cons.mp he with rfl | he
    · omega
    rcases List.mem_append.mp he with he | he
    · have hlt := sizeOf_lt_of_mem_stmtsExprs he
      omega
    · have hlt := sizeOf_lt_of_mem_stmtsExprs he
      omega
  | .result value, he => by
    obtain rfl := List.mem_singleton.mp he
    rw [Stmt.result.sizeOf_spec]
    omega
  | .declare name ty init, he => by
    obtain rfl := List.mem_singleton.mp he
    rw [Stmt.declare.sizeOf_spec]
    omega
  | .assign name value, he => by
    obtain rfl := List.mem_singleton.mp he
    rw [Stmt.assign.sizeOf_spec]
    omega

/-- The expressions of a list of statements are smaller than it. -/
theorem sizeOf_lt_of_mem_stmtsExprs {e : Expr} :
    ∀ {stmts : List Stmt}, e ∈ stmtsExprs stmts → sizeOf e < sizeOf stmts
  | stmt :: stmts, he => by
    rw [List.cons.sizeOf_spec]
    rcases List.mem_append.mp he with he | he
    · have hlt := sizeOf_lt_of_mem_exprs he
      omega
    · have hlt := sizeOf_lt_of_mem_stmtsExprs he
      omega

end

/-- The parts of an expression are smaller than it. -/
theorem Expr.sizeOf_lt_of_mem_children {e part : Expr} (hpart : part ∈ e.children) :
    sizeOf part < sizeOf e := by
  cases e with
  | array elements ty =>
    have hlt : sizeOf part < sizeOf elements := List.sizeOf_lt_of_mem hpart
    rw [array.sizeOf_spec]
    omega
  | new cls args =>
    have hlt : sizeOf part < sizeOf args := List.sizeOf_lt_of_mem hpart
    rw [new.sizeOf_spec]
    omega
  | call callee args typeArgs ty =>
    rw [call.sizeOf_spec]
    rcases List.mem_cons.mp hpart with rfl | hpart
    · omega
    · have hlt := List.sizeOf_lt_of_mem hpart
      omega
  | block stmts result =>
    have hlt := sizeOf_lt_of_mem_stmtsExprs hpart
    rw [block.sizeOf_spec]
    omega
  | _ => grind [children]

namespace Heap

variable {h : Heap} {found : Discovery} {node n m : Node} {todo : List Node} {e : Expr}

/-! ## Edges -/

/-- What an expression points to: itself, if it stands for a node of the heap or for a function
with a receiver, and whatever anything inside of it points to, the results of resolved promises
included. -/
inductive PointsTo (h : Heap) : Expr → Node → Prop where
  /-- An instance. -/
  | object (id : InstanceId) : PointsTo h (.object id) (.object id)
  /-- The receiver of a function. -/
  | receiver (method : MethodRef) (id : InstanceId) :
    PointsTo h (.function method id) (.object id)
  /-- The scope of an expression. -/
  | scope (id : ScopeId) (body : Expr) : PointsTo h (.scoped id body) (.scope id)
  /-- A promise. -/
  | promise (id : PromiseId) (ty : TypeId) : PointsTo h (.promise id ty) (.promise id)
  /-- What a promise has been resolved with. -/
  | result {id : PromiseId} {value : Expr} {n : Node} (ty : TypeId) :
    h.promise id = .resolved value → PointsTo h value n → PointsTo h (.promise id ty) n
  /-- What is inside. -/
  | inside {e part : Expr} {n : Node} : part ∈ e.children → PointsTo h part n → PointsTo h e n

/-- Where discovery can go from a node. A final instance leads nowhere, and a promise leads nowhere
either: what it has been resolved with belongs to the expression that it is in. -/
inductive Edge (h : Heap) : Node → Node → Prop where
  /-- From a scope to the scope around it. -/
  | parent {id outer : ScopeId} : (h.scope id).parent = some outer →
    Edge h (.scope id) (.scope outer)
  /-- From a scope to what `this` means in it. -/
  | receiver {id : ScopeId} {this : InstanceId} : (h.scope id).receiver = some this →
    Edge h (.scope id) (.object this)
  /-- From a scope to what its bindings point to. -/
  | binding {id : ScopeId} {b : Binding} {n : Node} : b ∈ (h.scope id).bindings →
    h.PointsTo b.expr n → Edge h (.scope id) n
  /-- From an open instance to its constructor scopes. -/
  | ownScope {id : InstanceId} {ty : TypeId} {scope : ScopeId} : (h.get id).sealed = false →
    (ty, scope) ∈ (h.get id).scopes → Edge h (.object id) (.scope scope)
  /-- From an open instance to what its properties point to. -/
  | slot {id : InstanceId} {s : Slot} {n : Node} : (h.get id).sealed = false →
    s ∈ (h.get id).slots → h.PointsTo s.expr n → Edge h (.object id) n
  /-- From an open array to what its elements point to. -/
  | element {id : InstanceId} {elements : List Expr} {e : Expr} {n : Node} :
    (h.get id).sealed = false → (h.get id).payload = .array elements → e ∈ elements →
    h.PointsTo e n → Edge h (.object id) n

/-- Every promise that has been resolved holds an instance or a missing value. -/
def ResultsTerminal (h : Heap) : Prop :=
  ∀ id value, h.promise id = .resolved value →
    (∃ r, value = .object r) ∨ ∃ ty, value = .missing ty

/-! ## The traversal finds what an expression points to -/

/-- The handles of an expression are its own and those of its parts. -/
theorem handles_eq (h : Heap) (e : Expr) :
    h.handles e = h.ownHandles e ++ e.children.flatMap h.handles := by
  rw [handles, Expr.preorder_eq, List.flatMap_cons, List.flatMap_assoc]
  rfl

/-- The handles of a result are found without the heap. -/
theorem handles_result (hr : h.ResultsTerminal) {id : PromiseId} {value : Expr}
    (hp : h.promise id = .resolved value) : value.handles = h.handles value := by
  rcases hr id value hp with ⟨r, rfl⟩ | ⟨ty, rfl⟩
  · rfl
  · rfl

/-- What a node of a tree mentions itself, the tree points to. -/
theorem pointsTo_of_mem_ownHandles (hr : h.ResultsTerminal) :
    ∀ {e : Expr}, n ∈ h.ownHandles e → h.PointsTo e n
  | .object id, hn => by
    obtain rfl := List.mem_singleton.mp hn
    exact .object id
  | .function method id, hn => by
    obtain rfl := List.mem_singleton.mp hn
    exact .receiver method id
  | .scoped id body, hn => by
    obtain rfl := List.mem_singleton.mp hn
    exact .scope id body
  | .promise id ty, hn => by
    rcases List.mem_cons.mp hn with rfl | hn
    · exact .promise id ty
    rw [resultHandles] at hn
    split at hn
    case h_1 value hp =>
      -- Of the two results there are, an instance and a missing value, only the instance mentions a
      -- node.
      refine .result ty hp ?_
      rcases hr id value hp with ⟨r, rfl⟩ | ⟨_, rfl⟩
      · obtain rfl := List.mem_singleton.mp hn
        exact .object r
      · cases hn
    case h_2 => cases hn
  | .scalar _, hn | .array _ _, hn | .this _, hn | .param _ _, hn | .variable _ _, hn
  | .member _ _ _, hn | .index _ _ _, hn | .binary _ _ _ _, hn | .unary _ _ _, hn | .new _ _, hn
  | .call _ _ _ _, hn | .hooked _ _ _, hn | .missing _, hn | .block _ _, hn | .unbound _, hn =>
    absurd hn List.not_mem_nil

/-- **The traversal finds exactly what an expression points to**, however deep inside of it. -/
theorem mem_handles_iff (hr : h.ResultsTerminal) : n ∈ h.handles e ↔ h.PointsTo e n := by
  constructor
  · intro hn
    -- By size, because a block's expressions lie below its statements.
    induction hsize : sizeOf e using Nat.strongRecOn generalizing e with
    | ind size ih =>
      subst hsize
      rw [handles_eq] at hn
      rcases List.mem_append.mp hn with hn | hn
      · exact pointsTo_of_mem_ownHandles hr hn
      · obtain ⟨part, hpart, hn⟩ := List.mem_flatMap.mp hn
        exact .inside hpart (ih _ (Expr.sizeOf_lt_of_mem_children hpart) hn rfl)
  · intro hpoints
    induction hpoints with
    | object id => exact List.mem_singleton_self _
    | receiver method id => exact List.mem_singleton_self _
    | scope id body => exact List.mem_cons_self
    | promise id ty => exact List.mem_cons_self
    | @result id value n ty hp _ ih =>
      rw [handles_eq]
      refine List.mem_append_left _ (List.mem_cons_of_mem _ ?_)
      rw [resultHandles, hp]
      show n ∈ value.handles
      rw [handles_result hr hp]
      exact ih
    | inside hpart _ ih =>
      rw [handles_eq]
      exact List.mem_append_right _ (List.mem_flatMap.mpr ⟨_, hpart, ih⟩)

/-- Discovery goes along the edges. -/
theorem edge_iff (hr : h.ResultsTerminal) : h.Edge n m ↔ m ∈ h.leads n := by
  constructor
  · -- Every kind of edge has its part of the list.
    intro hedge
    cases hedge with
    | parent hparent =>
      refine List.mem_append_left _ (List.mem_append_left _ ?_)
      rw [hparent]
      exact List.mem_singleton_self _
    | receiver hreceiver =>
      refine List.mem_append_left _ (List.mem_append_right _ ?_)
      rw [hreceiver]
      exact List.mem_singleton_self _
    | binding hb hpoints =>
      have hmem := (mem_handles_iff hr).mpr hpoints
      exact List.mem_append_right _ (List.mem_flatMap.mpr ⟨_, hb, hmem⟩)
    | ownScope hopen hscope =>
      rw [leads, hopen]
      exact List.mem_append_left _ (List.mem_map.mpr ⟨_, hscope, rfl⟩)
    | slot hopen hslot hpoints =>
      have hmem := (mem_handles_iff hr).mpr hpoints
      rw [leads, hopen]
      refine List.mem_append_right _ (List.mem_flatMap.mpr ⟨_, ?_, hmem⟩)
      exact List.mem_append_left _ (List.mem_map.mpr ⟨_, hslot, rfl⟩)
    | element hopen hpayload he hpoints =>
      have hmem := (mem_handles_iff hr).mpr hpoints
      rw [leads, hopen]
      refine List.mem_append_right _ (List.mem_flatMap.mpr ⟨_, ?_, hmem⟩)
      refine List.mem_append_right _ ?_
      rw [hpayload]
      exact he
  · -- Every part of the list comes from one kind of edge. A final instance has no list.
    intro hm
    cases n with
    | scope id =>
      rcases List.mem_append.mp hm with hm | hm
      · rcases List.mem_append.mp hm with hm | hm
        · obtain ⟨outer, houter, rfl⟩ := List.mem_map.mp hm
          exact .parent (Option.mem_toList.mp houter)
        · obtain ⟨this, hthis, rfl⟩ := List.mem_map.mp hm
          exact .receiver (Option.mem_toList.mp hthis)
      · obtain ⟨b, hb, hm⟩ := List.mem_flatMap.mp hm
        exact .binding hb ((mem_handles_iff hr).mp hm)
    | object id =>
      rw [leads] at hm
      split at hm
      case isTrue => cases hm
      case isFalse hopen =>
        have hopen := Bool.eq_false_iff.mpr hopen
        rcases List.mem_append.mp hm with hm | hm
        · obtain ⟨⟨ty, scope⟩, hscope, rfl⟩ := List.mem_map.mp hm
          exact .ownScope hopen hscope
        · obtain ⟨value, hvalue, hm⟩ := List.mem_flatMap.mp hm
          have hpoints := (mem_handles_iff hr).mp hm
          rcases List.mem_append.mp hvalue with hvalue | hvalue
          · obtain ⟨s, hs, rfl⟩ := List.mem_map.mp hvalue
            exact .slot hopen hs hpoints
          · cases hpayload : (h.get id).payload with
            | array elements =>
              rw [hpayload] at hvalue
              exact .element hopen hpayload hvalue hpoints
            | _ => rw [hpayload] at hvalue; cases hvalue
    | promise id => cases hm

end Heap

/-! ## Every node once -/

/-- Adding a handle that is not listed keeps a listing free of repetitions. -/
theorem Listing.nodup_push {store : Store} {listing : Listing store} {id : Handle store}
    (hlisting : listing.toList.Nodup) (hnew : ¬listing.contains id = true) :
    (listing.push id).toList.Nodup := by
  have hnot : id ∉ listing.toList := fun hin => hnew (mem_toList.mp hin)
  rw [toList_push]
  exact hlisting.append (List.nodup_singleton id) (List.disjoint_singleton.mpr hnot)

/-- No node is listed twice. -/
structure Discovery.Distinct (found : Discovery) : Prop where
  /-- No scope is. -/
  scopes : found.scopes.toList.Nodup
  /-- No instance is. -/
  instances : found.instances.toList.Nodup
  /-- No promise is. -/
  promises : found.promises.toList.Nodup

namespace Heap

variable {h : Heap} {found result : Discovery} {node n m : Node} {todo : List Node} {e : Expr}

/-- A visit lists no node a second time. -/
theorem distinct_visit (hd : found.Distinct) : (h.visit found node).1.Distinct := by
  cases node with
  | scope id =>
    rw [visit]
    split
    case isTrue => exact hd
    case isFalse hnew => exact { hd with scopes := Listing.nodup_push hd.scopes hnew }
  | object id =>
    rw [visit]
    split
    case isTrue => exact hd
    case isFalse hnew =>
      have hnew : ¬found.instances.contains id = true := fun hin => hnew (by simp [hin])
      exact { hd with instances := Listing.nodup_push hd.instances hnew }
  | promise id =>
    rw [visit]
    split
    case isTrue => exact hd
    case isFalse hnew => exact { hd with promises := Listing.nodup_push hd.promises hnew }

/-- A round lists no node a second time. -/
theorem distinct_visitAll (hd : found.Distinct) : (h.visitAll todo found).1.Distinct := by
  induction todo generalizing found with
  | nil => exact hd
  | cons node todo ih => exact ih (distinct_visit hd)

/-- A search lists no node a second time. -/
theorem distinct_discoverWithin (fuel : ℕ) (hd : found.Distinct) :
    (h.discoverWithin fuel todo found).Distinct := by
  induction fuel generalizing todo found with
  | zero => exact hd
  | succ fuel ih =>
    cases todo with
    | nil => exact hd
    | cons node todo =>
      rw [discoverWithin_cons]
      exact ih (distinct_visitAll hd)

/-! ## The search ends -/

/-- The search without a bound: a queue of nodes, each visited when it is at the front, with what it
leads to put at the end, until the queue is empty. -/
inductive Searches (h : Heap) : List Node → Discovery → Discovery → Prop where
  /-- Nothing is left to visit. -/
  | done (found : Discovery) : Searches h [] found found
  /-- The node at the front is visited. -/
  | visit {node : Node} {todo : List Node} {found result : Discovery} :
    Searches h (todo ++ (h.visit found node).2) (h.visit found node).1 result →
    Searches h (node :: todo) found result

/-- A round is as many visits as there are nodes in it, with what they lead to put after what has
been waiting. -/
theorem Searches.round {rest : List Node}
    (hs : h.Searches (rest ++ (h.visitAll todo found).2) (h.visitAll todo found).1 result) :
    h.Searches (todo ++ rest) found result := by
  induction todo generalizing found rest with
  | nil =>
    rw [visitAll, List.append_nil] at hs
    exact hs
  | cons node todo ih =>
    simp only [visitAll] at hs
    rw [List.cons_append]
    refine .visit ?_
    rw [List.append_assoc]
    refine ih ?_
    rw [List.append_assoc]
    exact hs

/-- A search whose rounds suffice ends, with the listing of these rounds. -/
theorem searches_discoverWithin {fuel : ℕ} (hfuel : h.unlisted found < fuel) :
    h.Searches todo found (h.discoverWithin fuel todo found) := by
  induction fuel generalizing todo found with
  | zero => exact absurd hfuel (Nat.not_lt_zero _)
  | succ fuel ih =>
    cases todo with
    | nil => exact .done found
    | cons node todo =>
      rw [discoverWithin_cons, ← List.append_nil (node :: todo)]
      refine .round ?_
      rw [List.append_nil, List.nil_append]
      cases hnext : (h.visitAll (node :: todo) found).2 with
      | nil =>
        rw [discoverWithin_nil]
        exact .done _
      | cons m rest =>
        -- What leads anywhere has been listed by this round.
        have hlt := unlisted_visitAll_lt (m := m) (hnext ▸ List.mem_cons_self)
        exact ih (by omega)

/-- Nothing is on no listing. -/
theorem distinct_nothingFound (h : Heap) : h.nothingFound.Distinct where
  scopes := List.nodup_nil
  instances := List.nodup_nil
  promises := List.nodup_nil

/-- **Discovery is exact.** On a heap whose promises have been resolved with instances and missing
values, with or without cycles, the search ends. It lists no node twice, and what it lists is what
can be reached from the root along the edges: the scopes, the instances that are not final and the
promises. -/
theorem discover_exact (hr : h.ResultsTerminal) (root : InstanceId) :
    h.Searches [.object root] h.nothingFound (h.discover root) ∧
      (h.discover root).Distinct ∧
      (∀ id, id ∈ (h.discover root).scopes.toList ↔
        Relation.ReflTransGen h.Edge (.object root) (.scope id)) ∧
      (∀ id, id ∈ (h.discover root).instances.toList ↔
        Relation.ReflTransGen h.Edge (.object root) (.object id) ∧ (h.get id).sealed = false) ∧
      ∀ id, id ∈ (h.discover root).promises.toList ↔
        Relation.ReflTransGen h.Edge (.object root) (.promise id) := by
  -- The edges are what discovery goes along.
  have hedges : h.Edge = fun a b => b ∈ h.leads a := by
    funext a b
    exact propext (edge_iff hr)
  have hlisted (n : Node) : (h.discover root).has n = true ↔
      Relation.ReflTransGen h.Edge (.object root) n ∧ h.isOpen n = true := by
    rw [hedges]
    exact has_discover_iff root
  refine ⟨searches_discoverWithin (h.unlisted_lt _),
    distinct_discoverWithin _ h.distinct_nothingFound, fun id => ?_, fun id => ?_, fun id => ?_⟩
  · exact Listing.mem_toList.trans ((hlisted (.scope id)).trans (and_iff_left rfl))
  · rw [← Bool.not_eq_true']
    exact Listing.mem_toList.trans (hlisted (.object id))
  · exact Listing.mem_toList.trans ((hlisted (.promise id)).trans (and_iff_left rfl))

/-- A heap of two instances that lead to each other: the first through a promise in a branch of a
method body, the second directly. -/
def cycle : Heap where
  scopes := #[]
  instances := #[
    { ty := .any, payload := .none, scopes := [], sealed := false
      slots := [⟨"next", .any, .any,
        .block [.branch (.bool true) [.result (.promise ⟨0⟩ .any)] []] .any⟩] },
    { ty := .any, payload := .none, scopes := [], sealed := false
      slots := [⟨"back", .any, .any, .object ⟨0⟩⟩] }]
  promises := #[.resolved (.object ⟨1⟩)]

/-- Discovery finds an instance that is only mentioned by what a promise in a statement has been
resolved with. -/
theorem discover_exact_cycle :
    cycle.ResultsTerminal ∧ ⟨1⟩ ∈ (cycle.discover ⟨0⟩).instances.toList := by
  have hr : cycle.ResultsTerminal := by
    rintro ⟨id⟩ value hp
    cases id with
    | zero => exact .inl ⟨⟨1⟩, (Promise.resolved.inj hp).symm⟩
    | succ id => cases hp
  have hpoints : cycle.PointsTo
      (.block [.branch (.bool true) [.result (.promise ⟨0⟩ .any)] []] .any) (.object ⟨1⟩) := by
    have hresult : cycle.PointsTo (.promise ⟨0⟩ .any) (.object ⟨1⟩) :=
      .result .any rfl (.object ⟨1⟩)
    exact .inside (List.mem_cons_of_mem _ List.mem_cons_self) hresult
  obtain ⟨-, -, -, hinstances, -⟩ := discover_exact hr ⟨0⟩
  have hedge : cycle.Edge (.object ⟨0⟩) (.object ⟨1⟩) := .slot rfl List.mem_cons_self hpoints
  exact ⟨hr, (hinstances ⟨1⟩).mpr ⟨.single hedge, rfl⟩⟩

end Heap

end ObjectGraph
