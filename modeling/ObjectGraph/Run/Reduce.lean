import ObjectGraph.Run.Construct
import ObjectGraph.Heap.Cell
import ObjectGraph.Tree.Closed

/-!
# Reduction

One pass over an expression reduces every node whose inputs are ready and leaves the others for a
later pass. It never loops: what a reduction puts in place (a call's body, a plugin's answer, the
result of a promise) is not looked at again in the same pass. Reductions are counted, so that a
pass without progress can be told.

The count and the world survive an error, since both are visible afterwards.
-/

namespace ObjectGraph

/-- A world during a pass, and the reductions made so far. -/
structure Pass (σ : Type) where
  /-- The world. -/
  world : World σ
  /-- The number of reductions. -/
  reductions : Nat

/-- A step of a pass. -/
abbrev Reduction (σ α : Type) := EStateM EvalError (Pass σ) α

variable {σ α : Type}

namespace Reduction

/-- Takes a step in the world. -/
def perform (action : Effect σ α) : Reduction σ α := fun s =>
  match action s.world with
  | .ok value world => .ok value { s with world }
  | .error e world => .error e { s with world }

/-- Answers the expression that a node becomes, and counts the reduction. -/
def become (e : Expr) : Reduction σ Expr := fun s =>
  .ok e { s with reductions := s.reductions + 1 }

/-- The number of reductions so far. -/
def count : Reduction σ Nat := fun s => .ok s.reductions s

/-- Reads the world. -/
def look (f : World σ → α) : Reduction σ α := perform (Effect.read f)

/-- A type with its placeholders replaced by the arguments of the enclosing calls. Arguments in
`own` come before the scope's, and what nothing binds becomes `any`. -/
def concrete (scope : Option ScopeId) (own : TypeArgs) (ty : TypeId) : Reduction σ TypeId := do
  let heap ← look (·.heap)
  let replace (param : TypeId) : TypeId :=
    ((own.lookup param).or (scope.bind (heap.typeArg? · param))).getD .any
  perform (Effect.onTypes (Registry.substitute (fun param => some (replace param)) ty))

/-! ## Leaves -/

/-- A literal becomes a new instance that carries its value. -/
def scalar (value : Scalar) : Reduction σ Expr := do
  become (.object (← perform (Effect.allocValue value.ty (.scalar value))))

/-- An array literal becomes a new array whose elements are closed over the scope. -/
def array (scope : Option ScopeId) (elements : List Expr) (ty : TypeId) : Reduction σ Expr := do
  let ty ← concrete scope [] ty
  let elements := elements.map (·.closeOver scope)
  become (.object (← perform (Effect.allocValue ty (.array elements))))

/-- `this` becomes the receiver. -/
def this (scope : Option ScopeId) : Reduction σ Expr := do
  match ← look fun w => scope.bind w.heap.receiver? with
  | some receiver => become (.object receiver)
  | none => throw .missingReceiver

/-- A name becomes what it is bound to, once that is terminal. A method gets the receiver of the
scope that binds it. -/
def name (scope : Option ScopeId) (e : Expr) (name : String) : Reduction σ Expr := do
  match ← look fun w => scope.bind (w.heap.lookup? · name) with
  | none => throw (.unknownBinding name)
  | some found =>
    match ← look fun w => w.heap.read? (.binding found.scope found.index) with
    | some (.unbound method) =>
      match ← look fun w => w.heap.receiver? found.scope with
      | some receiver => become (.function method receiver)
      | none => throw .missingReceiver
    | some bound => if bound.isTerminal then become bound else pure e
    | none => pure e

/-! ## Members and operators -/

/-- The plugin that speaks for an instance. -/
def pluginOf (natives : Natives σ) (id : InstanceId) : Reduction σ (Plugin σ) := do
  let i ← perform (Effect.instanceOf id)
  perform (Effect.pluginFor natives i.ty)

/-- Puts a plugin's answer in place, or keeps the expression if there is none yet. -/
def answerOr (kept : Expr) : Option Expr → Reduction σ Expr
  | some result => become result
  | none => pure kept

/-- A member of a reduced object. A member of a missing object is missing. -/
def member (natives : Natives σ) (object : Expr) (name : String) (ty : TypeId) :
    Reduction σ Expr := do
  match object with
  | .missing _ => become (.missing ty)
  | .object id =>
    let plugin ← pluginOf natives id
    answerOr (.member object name ty) (← perform (plugin.property id name))
  | _ => pure (.member object name ty)

/-- An element of a reduced object at a reduced index. -/
def index (natives : Natives σ) (object index : Expr) (ty : TypeId) : Reduction σ Expr := do
  match object, index with
  | .missing _, _ => become (.missing ty)
  | _, .missing _ => become (.missing ty)
  | .object id, .object position =>
    let plugin ← pluginOf natives id
    answerOr (.index object index ty) (← perform (plugin.element id position))
  | _, _ => pure (.index object index ty)

/-- The value that decides a logical operator without its right operand, if the left one does. -/
def shortCircuit (op : BinaryOp) (lhs : Expr) : Reduction σ (Option Bool) := do
  match lhs with
  | .object id =>
    match (← perform (Effect.instanceOf id)).payload, op with
    | .scalar (.bool false), .and => return some false
    | .scalar (.bool true), .or => return some true
    | _, _ => return none
  | _ => return none

/-- A binary operation on reduced operands, which must have one type. -/
def binary (natives : Natives σ) (op : BinaryOp) (lhs rhs : Expr) (ty : TypeId) :
    Reduction σ Expr := do
  match lhs, rhs with
  | .missing _, _ => become (.missing ty)
  | _, .missing _ => become (.missing ty)
  | .object l, .object r =>
    let lhsTy := (← perform (Effect.instanceOf l)).ty
    let rhsTy := (← perform (Effect.instanceOf r)).ty
    if lhsTy ≠ rhsTy then
      let types ← look (·.types)
      throw (.operandMismatch op.symbol (types.name lhsTy) (types.name rhsTy))
    let plugin ← pluginOf natives l
    answerOr (.binary op lhs rhs ty) (← perform (plugin.operator (.binary op l r)))
  | _, _ => pure (.binary op lhs rhs ty)

/-- A unary operation on a reduced operand. -/
def unary (natives : Natives σ) (op : UnaryOp) (operand : Expr) (ty : TypeId) :
    Reduction σ Expr := do
  match operand with
  | .missing _ => become (.missing ty)
  | .object id =>
    let plugin ← pluginOf natives id
    answerOr (.unary op operand ty) (← perform (plugin.operator (.unary op id)))
  | _ => pure (.unary op operand ty)

/-- A reflection of an operand's static type, or of its runtime type if it is an instance. -/
def reflect (scope : Option ScopeId) (operand : Expr) : Reduction σ Expr := do
  let ty ←
    match operand with
    | .object id => do pure (← perform (Effect.instanceOf id)).ty
    | operand => pure (operand.declaredTy.getD .any)
  let ty ← concrete scope [] ty
  become (.object (← perform (Effect.allocValue .type (.type ty))))

/-! ## Construction and calls -/

/-- A new instance, with the arguments closed over the scope. -/
def new (natives : Natives σ) (scope : Option ScopeId) (cls : TypeId) (args : List Expr) :
    Reduction σ Expr := do
  become (.object (← perform (Effect.construct natives cls (args.map (·.closeOver scope)))))

/-- Binds a method's parameters. A given argument is closed over the caller's scope; one that is
left out is missing, of the parameter's type under the call's generic arguments. -/
def bindArgs (scope : Option ScopeId) (typeArgs : TypeArgs) :
    List Param → List Expr → Reduction σ (List Binding)
  | [], _ => pure []
  | p :: ps, [] => do
    let binding := ⟨p.name, .missing (← concrete scope typeArgs p.ty), p.ty⟩
    return binding :: (← bindArgs scope typeArgs ps [])
  | p :: ps, arg :: args => do
    let binding := ⟨p.name, arg.closeOver scope, p.ty⟩
    return binding :: (← bindArgs scope typeArgs ps args)

/-- Generic arguments as the scope makes them concrete. -/
def concreteArgs (scope : Option ScopeId) : TypeArgs → Reduction σ TypeArgs
  | [] => pure []
  | (param, arg) :: rest => do
    let arg ← concrete scope [] arg
    return (param, arg) :: (← concreteArgs scope rest)

/-- Enters a method's body in a new scope below the constructor scope of the type that declares
the method. -/
def enter (scope : Option ScopeId) (m : MethodRef) (receiver : InstanceId) (method : Method)
    (body : Body) (args : List Expr) (typeArgs : TypeArgs) : Reduction σ Expr := do
  match (← perform (Effect.instanceOf receiver)).constructorScope? m.owner with
  | none =>
    let ty ← look (·.typeName receiver)
    throw (.missingMethodScope ty (← look (·.types.name m.owner)))
  | some parent =>
    let typeArgs ← concreteArgs scope typeArgs
    let bindings ← bindArgs scope typeArgs method.params args
    let inner ← perform (Effect.onHeap (Heap.allocScope
      { parent := some parent, receiver := some receiver, bindings, typeArgs }))
    become (.scoped inner (.block body.stmts body.result))

/-- A call of a reduced callee. A bodiless method is answered by the plugin of the type that
declares it. -/
def call (natives : Natives σ) (scope : Option ScopeId) (callee : Expr) (args : List Expr)
    (typeArgs : TypeArgs) (ty : TypeId) : Reduction σ Expr := do
  match callee with
  | .missing _ => become (.missing ty)
  | .function m receiver =>
    let method ← look (·.types.method m)
    match method.body with
    | some body => enter scope m receiver method body args typeArgs
    | none =>
      let plugin ← perform (Effect.pluginFor natives m.owner)
      match ← perform (plugin.call receiver m args) with
      | .produced result => become result
      | .deferred => pure (.call callee args typeArgs ty)
  | _ => pure (.call callee args typeArgs ty)

/-- A hook's answer about a reduced operand. -/
def hooked (natives : Natives σ) (operand : Expr) (hook : HookId) (ty : TypeId) :
    Reduction σ Expr := do
  match operand with
  | .missing _ => become (.missing ty)
  | .object id =>
    match natives.hooks[hook.index]? with
    | some callback => become (← perform (callback id))
    | none => throw (.unknownHook hook.text)
  | _ => pure (.hooked operand hook ty)

/-- A promise becomes its result. The first reader turns the result into an expression, and later
readers share it. Every reader of a failed promise fails. -/
def promise (id : PromiseId) (ty : TypeId) : Reduction σ Expr := do
  match ← look (·.heap.promise id) with
  | .registered _ _ | .inFlight _ => pure (.promise id ty)
  | .settled (.ok value) =>
    let e ← perform (Effect.materialize value)
    perform (Effect.modifyHeap (Heap.setPromise id (.resolved e)))
    become e
  | .settled (.error message) | .rejected message =>
    perform (Effect.modifyHeap (Heap.setPromise id (.rejected message)))
    throw (.promiseRejected message)
  | .resolved value => become value

/-! ## Scopes and bodies -/

/-- Leaves a scope behind if its body is terminal, or if the body no longer moves, needs nothing
from the scope, and the scope has nothing left to reduce. -/
def leave (scope : ScopeId) (before : Nat) (body : Expr) : Reduction σ Expr := do
  let stalled := (← count) = before
  let free ← if stalled then look fun w => w.heap.isReduced scope && body.isClosed w.types
    else pure false
  if body.isTerminal || free then become body else pure (.scoped scope body)

/-- A body without statements left is missing. -/
def fallOff (scope : Option ScopeId) (result : TypeId) : Reduction σ Expr := do
  become (.missing (← concrete scope [] result))

/-- A declaration opens a scope around the rest of the body. -/
def declare (scope : Option ScopeId) (name : String) (ty : TypeId) (init : Expr)
    (rest : List Stmt) (result : TypeId) : Reduction σ Expr := do
  let inner ← perform (Effect.onHeap (Heap.allocScope
    { parent := scope, bindings := [⟨name, init.closeOver scope, ty⟩] }))
  become (.scoped inner (.block rest result))

/-- An assignment waits for its value and then overwrites the nearest binding of the name. -/
def assign (scope : Option ScopeId) (name : String) (value : Expr) (rest : List Stmt)
    (result : TypeId) : Reduction σ Expr := do
  if value.isTerminal then
    match ← look fun w => scope.bind (w.heap.lookup? · name) with
    | some found =>
      perform (Effect.modifyHeap (·.write (.binding found.scope found.index) value))
      become (.block rest result)
    | none => throw (.unknownBinding name)
  else pure (.block (.assign name value :: rest) result)

/-- A branch waits for its condition and then puts the statements it takes before the rest. A
missing condition counts as false. -/
def branch (cond : Expr) (whenTrue whenFalse rest : List Stmt) (result : TypeId) :
    Reduction σ Expr := do
  match cond with
  | .missing _ => become (.block (whenFalse ++ rest) result)
  | .object id =>
    match (← perform (Effect.instanceOf id)).payload with
    | .scalar (.bool taken) =>
      become (.block ((if taken then whenTrue else whenFalse) ++ rest) result)
    | _ => perform (Effect.invalidPayload id "bool")
  | _ => pure (.block (.branch cond whenTrue whenFalse :: rest) result)

end Reduction

/-! ## One pass -/

section Reduce

open Reduction

variable (natives : Natives σ)

mutual

/-- One pass over an expression that lies in a scope, or in none. -/
def Expr.reduce (scope : Option ScopeId) : Expr → Reduction σ Expr
  | .scalar value => scalar value
  | .array elements ty => array scope elements ty
  | .this _ => this scope
  | .param n ty => name scope (.param n ty) n
  | .variable n ty => name scope (.variable n ty) n
  | .member object name ty => do member natives (← object.reduce scope) name ty
  | .index object position ty => do
    let object ← object.reduce scope
    index natives object (← position.reduce scope) ty
  | .binary op lhs rhs ty => do
    let lhs ← lhs.reduce scope
    match ← shortCircuit op lhs with
    | some decided => become (.bool decided)
    | none => binary natives op lhs (← rhs.reduce scope) ty
  | .unary .typeOf operand _ => reflect scope operand
  | .unary op operand ty => do unary natives op (← operand.reduce scope) ty
  | .new cls args => new natives scope cls args
  | .call callee args typeArgs ty => do
    let callee ← callee.reduce scope
    call natives scope callee (← reduceAll scope args) typeArgs ty
  | .hooked operand hook ty => do hooked natives (← operand.reduce scope) hook ty
  | .promise id ty => promise id ty
  | .scoped inner body => do
    let before ← count
    leave inner before (← body.reduce (some inner))
  | .block stmts result => reduceBody scope result stmts
  | .object id => pure (.object id)
  | .missing ty => pure (.missing ty)
  | .unbound method => pure (.unbound method)
  | .function method receiver => pure (.function method receiver)

/-- One pass over each expression of a list, from left to right. -/
def reduceAll (scope : Option ScopeId) : List Expr → Reduction σ (List Expr)
  | [] => pure []
  | e :: es => do
    let e ← e.reduce scope
    return e :: (← reduceAll scope es)

/-- One pass over a body. Statements run one at a time, and a pass looks at the first only. -/
def reduceBody (scope : Option ScopeId) (result : TypeId) : List Stmt → Reduction σ Expr
  | [] => fallOff scope result
  | .result value :: _ => become value
  | .declare name ty init :: rest => declare scope name ty init rest result
  | .assign name value :: rest => do assign scope name (← value.reduce scope) rest result
  | .branch cond whenTrue whenFalse :: rest => do
    branch (← cond.reduce scope) whenTrue whenFalse rest result

end

end Reduce

end ObjectGraph
