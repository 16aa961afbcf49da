import ObjectGraph.Plugin.Scalar

/-!
# Scripted plugins

A plugin can be described by data: a table that says, for each property, call and operator, which
answer to give. Such plugins stand in for host code in experiments. They keep a journal of what
they were asked, and can put off an answer a number of times or hand out promises.
-/

namespace ObjectGraph

/-- What scripted plugins remember. -/
structure Journal where
  /-- What happened, in order. -/
  events : List String := []
  /-- How often each plugin was asked for an answer, by the plugin's number and the key asked
  for. -/
  asked : List ((Nat × String) × Nat) := []

namespace Journal

/-- Adds one to the count of an entry, which is new if it has none. -/
def countUp (entry : Nat × String) : List ((Nat × String) × Nat) → List ((Nat × String) × Nat)
  | [] => [(entry, 1)]
  | (e, n) :: rest => if e = entry then (e, n + 1) :: rest else (e, n) :: countUp entry rest

/-- How often a plugin has been asked for a key. -/
def timesAsked (journal : Journal) (plugin : Nat) (key : String) : Nat :=
  (journal.asked.lookup (plugin, key)).getD 0

/-- The journal after one more request for a key. -/
def ask (journal : Journal) (plugin : Nat) (key : String) : Journal :=
  { journal with asked := countUp (plugin, key) journal.asked }

end Journal

/-- An answer to a request about an instance, made under a key. -/
inductive Answer where
  /-- Not yet. -/
  | pending
  /-- The instance's own slot or method of the key's name. -/
  | slot
  /-- Confirmed absence, of the type that the key is declared with. -/
  | absent
  /-- An error. -/
  | fail
  /-- An expression. -/
  | expr (e : Expr)
  /-- An expression, but not yet the first `count` times that the key is asked for. -/
  | after (count : Nat) (e : Expr)
  /-- A new promise at each request. -/
  | promise (ty : TypeId) (task : Outcome)
  /-- A hook on the instance. -/
  | hook (hook : HookId) (ty : TypeId)

/-- An answer to a call. -/
inductive CallAnswer where
  /-- As if the plugin had no calls. -/
  | default
  /-- Never ready. -/
  | defer
  /-- The same for every list of arguments. -/
  | answer (a : Answer)
  /-- The first argument. -/
  | first
  /-- Twice the first argument, which must be an integer. -/
  | double
  /-- A promise of ten times the first argument, which must be an integer. The promise fails for
  zero. -/
  | remote

/-- What happens when an instance is sealed. -/
inductive SealAnswer where
  /-- Nothing. -/
  | keep
  /-- Its payload is replaced. -/
  | replace (payload : Payload)
  /-- An error. -/
  | fail

/-- The answers of a scripted plugin. What has no entry is as for any instance. -/
structure Script where
  /-- The answers for properties, by name. -/
  properties : List (String × Answer) := []
  /-- The answers for calls, by the method's name. -/
  calls : List (String × CallAnswer) := []
  /-- The answer for elements. -/
  element : Option Answer := none
  /-- The answer for operators. -/
  operator : Option Answer := none
  /-- What sealing does. -/
  onSeal : SealAnswer := .keep

/-- A hook that a script can name. -/
inductive ScriptHook where
  /-- The instance's scalar text between angle brackets. -/
  | wrap
  /-- The instance itself. -/
  | self
  /-- A missing value of the instance's type. -/
  | missing
  /-- An error. -/
  | fail
deriving DecidableEq, Repr

namespace ScriptHook

/-- The hook's name. -/
def name : ScriptHook → String
  | wrap => "wrap"
  | self => "self"
  | missing => "missing"
  | fail => "fail"

/-- The hook of a name. -/
def ofName? (text : String) : Option ScriptHook :=
  [wrap, self, missing, fail].find? (·.name == text)

end ScriptHook

namespace Effect

/-- Adds an event to the journal. -/
def log (event : String) : Effect Journal Unit :=
  modify fun w => { w with host := { w.host with events := w.host.events ++ [event] } }

/-- Takes the events out of the journal. -/
def takeEvents : Effect Journal (List String) :=
  modifyGet fun w => (w.host.events, { w with host := { w.host with events := [] } })

/-- How often a plugin has been asked for a key before, counting this time from now on. -/
def countAsked (plugin : Nat) (key : String) : Effect Journal Nat :=
  modifyGet fun w => (w.host.timesAsked plugin key, { w with host := w.host.ask plugin key })

/-- The error of scripted failures. -/
def scriptFailure {α : Type} (id : InstanceId) : Effect Journal α := invalidPayload id "test"

end Effect

namespace Answer

open Effect

/-- The answer about an instance to a request for a key that was made `before` times already. -/
def resolve (id : InstanceId) (key : String) (before : Nat) :
    Answer → Effect Journal (Option Expr)
  | pending => pure none
  | slot => resolveSlot id key
  | absent => do
    let ty ← read fun w => ((w.types.findProperty (w.heap.get id).ty key).map (·.2.ty)).getD .any
    return some (.missing ty)
  | fail => scriptFailure id
  | expr e => return some e
  | after count e => return if before < count then none else some e
  | promise ty task => do return some (← spawn ty task)
  | hook h ty => return some (.hooked (.object id) h ty)

/-- Gives an answer about an instance, on behalf of the plugin with the given number. Requests for
a property, a call and an operator count together where they share the key. -/
def give (plugin : Nat) (id : InstanceId) (key : String) (answer : Answer) :
    Effect Journal (Option Expr) := do
  answer.resolve id key (← countAsked plugin key)

end Answer

namespace CallAnswer

open Effect

/-- Runs a step on the first argument, once that is an instance. -/
def withFirst (args : List Expr) (step : InstanceId → Effect Journal Expr) :
    Effect Journal CallOutcome := do
  match args.head?.bind Expr.asObject with
  | some arg => return .produced (← step arg)
  | none => return .deferred

/-- Answers a call on a receiver, on behalf of the plugin with the given number. -/
def give (plugin : Nat) (receiver : InstanceId) (method : String) (args : List Expr) :
    CallAnswer → Effect Journal CallOutcome
  | default => throw (.missingMethodBody method)
  | defer => pure .deferred
  | answer a => do
    match ← a.give plugin receiver method with
    | some e => return .produced e
    | none => return .deferred
  | first => withFirst args fun arg => pure (.object arg)
  | double => withFirst args fun arg => do return .int ((← intOf arg) * 2)
  | remote => withFirst args fun arg => do
    let n ← intOf arg
    spawn .int (if n = 0 then .rejects "boom" else .returns (.value .int (.scalar (.int (n * 10)))))

end CallAnswer

namespace Script

open Effect

/-- The plugin that a script describes, under a number that no other plugin has. -/
def plugin (script : Script) (number : Nat) : Plugin Journal where
  property id name := do
    match script.properties.lookup name with
    | some a =>
      log ("prop " ++ name ++ " " ++ id.text)
      a.give number id name
    | none => resolveSlot id name
  element id index := do
    match script.element with
    | some a =>
      log ("index " ++ id.text ++ " " ++ index.text)
      a.give number id "[]"
    | none => Plugin.plainClass.element id index
  operator operation := do
    match script.operator with
    | some a =>
      log ("op " ++ operation.symbol ++ " " ++ operation.subject.text)
      a.give number operation.subject "op"
    | none => identityOperator operation
  call receiver method args := do
    let name := (← read (·.types.method method)).name
    log ("call " ++ name ++ " " ++ receiver.text ++ " " ++ Nat.repr args.length)
    ((script.calls.lookup name).getD .default).give number receiver name args
  onSeal id := do
    log ("seal " ++ id.text)
    match script.onSeal with
    | .keep => pure ()
    | .replace payload => modifyHeap (Heap.modifyInstance id fun i => { i with payload })
    | .fail => scriptFailure id

end Script

/-- The hook that a script names. -/
def ScriptHook.hook (kind : ScriptHook) : Hook Journal := fun id => do
  Effect.log ("hook " ++ kind.name ++ " " ++ id.text)
  match kind with
  | wrap => Effect.read fun w => .string ("<" ++ (w.scalarText? id).getD "" ++ ">")
  | self => pure (.object id)
  | missing => return .missing (← Effect.instanceOf id).ty
  | fail => Effect.scriptFailure id

/-- Gives a type the plugin of a script. -/
def Natives.registerScript (natives : Natives Journal) (ty : TypeId) (script : Script) :
    Natives Journal :=
  natives.register ty (script.plugin natives.plugins.length)

end ObjectGraph
