import ObjectGraph.Heap.Basic
import ObjectGraph.Output.TreeJson

/-!
# The heap as JSON

Scopes, instances and promises as they stand, for looking into an evaluation on its way. What they
hold is shown by `Expr.toJson`, and what they point to by its position.
-/

namespace ObjectGraph

variable (types : Registry)

/-- A payload under the word for its kind. -/
def Payload.toJson : Payload → Json
  | .none => .headed "none" []
  | .scalar value => value.toJson
  | .array elements => .headed "array" [.array (elements.map (·.toJson types))]
  | .type ty => .headed "type" [types.keyJson ty]
  | .host data => .headed "host" [.string data]

/-- An instance. Each property has its name, the type that declares it, its own type and its
value. -/
def Instance.toJson (i : Instance) : Json :=
  .object
    [ ("ty", types.keyJson i.ty),
      ("payload", i.payload.toJson types),
      ("sealed", .bool i.sealed),
      ("scopes", .array (i.scopes.map fun entry =>
        .array [types.keyJson entry.1, entry.2.toJson])),
      ("props", .array (i.slots.map fun s =>
        .headed s.name [types.keyJson s.declaring, types.keyJson s.ty, s.expr.toJson types])) ]

/-- A scope. Each binding has its name, its type and what it is bound to. -/
def Scope.toJson (s : Scope) : Json :=
  .object
    [ ("parent", s.parent.elim .null Handle.toJson),
      ("receiver", s.receiver.elim .null Handle.toJson),
      ("targs", types.typeArgsJson s.typeArgs),
      ("bindings", .array (s.bindings.map fun b =>
        .headed b.name [types.keyJson b.ty, b.expr.toJson types])) ]

/-- A promise: its state with what it holds, and whether it waits for its task to be started. -/
def Promise.toJson (p : Promise) : Json :=
  let state :=
    match p with
    | .registered ty _ => .headed "registered" [types.keyJson ty]
    | .inFlight ty => .headed "inflight" [types.keyJson ty]
    | .settled (.ok (.value ty payload)) =>
      .headed "settled" [types.keyJson ty, payload.toJson types]
    | .settled (.ok (.missing ty)) => .headed "settled" [types.keyJson ty]
    | .settled (.error message) => .headed "failed" [.string message]
    | .resolved value => .headed "resolved" [value.toJson types]
    | .rejected message => .headed "rejected" [.string message]
  .object [("state", state), ("pending", .bool p.isPending)]

end ObjectGraph
