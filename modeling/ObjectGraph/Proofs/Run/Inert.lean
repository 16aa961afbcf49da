import ObjectGraph.Plugin.Builtin
import ObjectGraph.Proofs.Run.Keeping

/-!
# The built-in plugins are inert

The plugins of the built-in types read the world, and answer with literals, with what a slot or an
element holds, with the absence of an element, or with a method and its receiver (`World.Finds`).
Nothing else is to be known of them (`reads_builtin`). None of them changes anything, whatever it is
asked (`steady_builtin`), and where no handle dangles, none dangles in what they answer either
(`inert_builtin`).
-/

namespace ObjectGraph

variable {σ α β : Type} {w : World σ}

/-! ## Reading -/

namespace Asks

/-- Looking at the world first. -/
theorem read_bind {f : World σ → β} {next : β → Effect σ α} {yields : α → Prop}
    (h : Asks (next (f w)) w yields) : Asks (Effect.read f >>= next) w yields := h

/-- Data that an instance does not carry. -/
theorem invalidPayload {id : InstanceId} {expected : String} {yields : α → Prop} :
    Asks (Effect.invalidPayload id expected) w yields := .read_bind .throw

/-- The integer of an instance. -/
theorem intOf {id : InstanceId} : Asks (Effect.intOf id) w fun _ => True := by
  unfold Effect.intOf Effect.instanceOf
  refine .read_bind ?_
  split
  · exact .pure trivial
  · exact .invalidPayload

/-- The float of an instance. -/
theorem floatOf {id : InstanceId} : Asks (Effect.floatOf id) w fun _ => True := by
  unfold Effect.floatOf Effect.instanceOf
  refine .read_bind ?_
  split
  · exact .pure trivial
  · exact .invalidPayload

/-- The text of an instance. -/
theorem stringOf {id : InstanceId} : Asks (Effect.stringOf id) w fun _ => True := by
  unfold Effect.stringOf Effect.instanceOf
  refine .read_bind ?_
  split
  · exact .pure trivial
  · exact .invalidPayload

/-- The truth value of an instance. -/
theorem boolOf {id : InstanceId} : Asks (Effect.boolOf id) w fun _ => True := by
  unfold Effect.boolOf Effect.instanceOf
  refine .read_bind ?_
  split
  · exact .pure trivial
  · exact .invalidPayload

/-- The type of a reflection. -/
theorem typeOf {id : InstanceId} : Asks (Effect.typeOf id) w fun _ => True := by
  unfold Effect.typeOf Effect.instanceOf
  refine .read_bind ?_
  split
  · exact .pure trivial
  · exact .invalidPayload

/-- The elements of an array are in its cells. -/
theorem elementsOf {id : InstanceId} :
    Asks (Effect.elementsOf id) w fun elements =>
      ∀ e ∈ elements, ∃ i, w.heap.read? (.element id i) = some e := by
  unfold Effect.elementsOf Effect.instanceOf
  refine .read_bind ?_
  split
  · rename_i elements hpayload
    refine .pure fun e he => ?_
    rw [← show (w.heap.get id).payload.elements = elements by rw [hpayload]; rfl] at he
    exact List.mem_iff_getElem?.mp he
  · exact .invalidPayload

end Asks

/-! ## Answers -/

/-- What there is to be found for an answer about an instance. -/
inductive World.Finds (w : World σ) (id : InstanceId) : Expr → Prop
  /-- A literal can be answered anywhere. -/
  | literal (value : Scalar) : Finds w id (.scalar value)
  /-- Cells hold expressions. -/
  | held {c : Cell} {e : Expr} (h : w.heap.read? c = some e) : Finds w id e
  /-- An element may be absent, which is then of the array's element type. -/
  | absent : Finds w id (.missing ((w.types.element? (w.heap.get id).ty).getD .any))
  /-- A method has the instance for its receiver. -/
  | method (m : MethodRef) : Finds w id (.function m id)
  /-- The text of any instance is up to the hook. -/
  | text : Finds w id (.hooked (.object id) toStringHook .string)

/-- What is found mentions only what is on the heap. -/
theorem World.Finds.covers {id : InstanceId} {e : Expr} (h : w.Finds id e) (hw : w.Grounded)
    (hid : w.heap.Has (.object id)) : w.heap.Covers e := by
  cases h with
  | literal value => exact Heap.covers_scalar value
  | held h => exact hw.heap.cell h
  | absent => exact Heap.covers_missing
  | method m => exact Heap.covers_function.mpr hid
  | text => exact Heap.covers_hooked.mpr (Heap.covers_object.mpr hid)

/-- What a plugin answers, if anything, mentions only what is on the heap. -/
def Answers (step : Effect σ (Option Expr)) (w : World σ) : Prop :=
  Asks step w fun answer => ∀ e, answer = some e → w.heap.Covers e

/-- What a plugin answers, if anything, is found for an answer about the instance. -/
def AnswersAbout (step : Effect σ (Option Expr)) (w : World σ) (id : InstanceId) : Prop :=
  Asks step w fun answer => ∀ e, answer = some e → w.Finds id e

namespace AnswersAbout

variable {id : InstanceId}

/-- An answer. -/
theorem pure {e : Expr} (h : w.Finds id e) :
    AnswersAbout (Pure.pure (some e) : Effect σ (Option Expr)) w id :=
  Asks.pure fun _ he => Option.some.inj he ▸ h

/-- A literal. -/
theorem literal (value : Scalar) :
    AnswersAbout (Pure.pure (some (.scalar value)) : Effect σ (Option Expr)) w id :=
  pure (.literal value)

/-- An answer that has to be a value. -/
theorem terminal {e : Expr} (h : w.Finds id e) :
    AnswersAbout
      (Pure.pure (if e.isTerminal then some e else none) : Effect σ (Option Expr)) w id := by
  split
  · exact pure h
  · exact Asks.pure fun e he => by cases he

/-- An operator that a type does not have. -/
theorem unsupported {operation : Operation} :
    AnswersAbout (Effect.unsupported operation) w id :=
  .read_bind .throw

/-- An integer that must fit. -/
theorem checked {op : String} {value : Option Int64} :
    AnswersAbout (Effect.checked op value) w id := by
  cases value with
  | none => exact .throw
  | some value => exact literal (.int value)

/-- A comparison. -/
theorem comparison {operation : Operation} {answer : Option Bool} :
    AnswersAbout (Plugin.comparison operation answer) w id := by
  cases answer with
  | none => exact unsupported
  | some answer => exact literal (.bool answer)

/-- The operators of every instance. -/
theorem identityOperator {operation : Operation} :
    AnswersAbout (Effect.identityOperator operation) w id := by
  unfold Effect.identityOperator
  split
  · exact literal _
  · exact literal _
  · exact unsupported

/-- A member out of an instance's slots. -/
theorem resolveSlot {name : String} : AnswersAbout (Effect.resolveSlot id name) w id := by
  unfold Effect.resolveSlot Effect.instanceOf
  refine Asks.read_bind ?_
  split
  · rename_i slot hslot
    obtain ⟨i, hi⟩ := List.mem_iff_getElem?.mp (List.mem_of_find?_eq_some hslot)
    exact terminal (.held (c := .slot id i) (by rw [Heap.read?, hi]; rfl))
  · refine Asks.read_bind ?_
    split
    · exact pure (.method _)
    · exact .read_bind .throw

/-- The operators of integers. -/
theorem intOperator {operation : Operation} :
    AnswersAbout (Plugin.intOperator operation) w id := by
  unfold Plugin.intOperator
  split
  · rename_i op lhs rhs
    refine Asks.intOf.bind fun a _ => Asks.intOf.bind fun b _ => ?_
    split
    · exact checked
    · exact checked
    · exact checked
    · split
      · exact .throw
      · exact checked
    · split
      · exact .throw
      · exact checked
    · exact comparison
  · exact Asks.intOf.bind fun a _ => checked
  · exact unsupported

/-- The operators of floats. -/
theorem floatOperator {operation : Operation} :
    AnswersAbout (Plugin.floatOperator operation) w id := by
  unfold Plugin.floatOperator
  split
  · rename_i op lhs rhs
    refine Asks.floatOf.bind fun a _ => Asks.floatOf.bind fun b _ => ?_
    split
    · exact literal _
    · exact literal _
    · exact literal _
    · split
      · exact .throw
      · exact literal _
    · split
      · exact .throw
      · exact literal _
    · exact comparison
  · exact Asks.floatOf.bind fun a _ => literal _
  · exact unsupported

/-- The operators of texts. -/
theorem stringOperator {operation : Operation} :
    AnswersAbout (Plugin.stringOperator operation) w id := by
  unfold Plugin.stringOperator
  split
  · rename_i op lhs rhs
    refine Asks.stringOf.bind fun a _ => Asks.stringOf.bind fun b _ => ?_
    split
    · exact literal _
    · exact comparison
  · exact unsupported

/-- The operators of truth values. -/
theorem boolOperator {operation : Operation} :
    AnswersAbout (Plugin.boolOperator operation) w id := by
  unfold Plugin.boolOperator
  split
  · rename_i op lhs rhs
    refine Asks.boolOf.bind fun a _ => Asks.boolOf.bind fun b _ => ?_
    split
    · exact literal _
    · exact literal _
    · exact literal _
    · exact literal _
    · exact unsupported
  · exact Asks.boolOf.bind fun a _ => literal _
  · exact unsupported

/-- The operators of reflections. -/
theorem typeOperator {operation : Operation} :
    AnswersAbout (Plugin.typeOperator operation) w id := by
  unfold Plugin.typeOperator
  split
  · exact Asks.typeOf.bind fun a _ => Asks.typeOf.bind fun b _ => literal _
  · exact Asks.typeOf.bind fun a _ => Asks.typeOf.bind fun b _ => literal _
  · exact identityOperator

/-- The elements of arrays. -/
theorem arrayElement {position : InstanceId} :
    AnswersAbout (Plugin.arrayElement id position) w id := by
  unfold Plugin.arrayElement
  refine Asks.intOf.bind fun i _ => Asks.read_bind (Asks.elementsOf.bind fun elements h => ?_)
  split
  · exact pure .absent
  · rename_i e he
    split at he
    · obtain ⟨j, hj⟩ := h e (List.mem_of_getElem? he)
      exact terminal (.held hj)
    · cases he

end AnswersAbout

/-! ## The built-in plugins -/

/-- A plugin that only reads the world, and answers with what it finds there. -/
structure Plugin.Reads (p : Plugin σ) : Prop where
  /-- Asked for a member. -/
  property : ∀ {id name w}, AnswersAbout (p.property id name) w id
  /-- Asked for an element. -/
  element : ∀ {id position w}, AnswersAbout (p.element id position) w id
  /-- Asked for the result of an operator. -/
  operator : ∀ {operation w}, AnswersAbout (p.operator operation) w operation.subject
  /-- Asked to answer a call. -/
  call : ∀ {receiver m args w}, Asks (p.call receiver m args) w fun outcome =>
    ∀ e, outcome = .produced e → w.Finds receiver e
  /-- Told that an instance is final. -/
  onSeal : ∀ {id w}, p.onSeal id w = .ok () w

/-- Plugins and hooks that only read the world. -/
structure Natives.Reads (natives : Natives σ) : Prop where
  /-- The plugins. -/
  plugins : ∀ entry ∈ natives.plugins, entry.2.Reads
  /-- The hooks. -/
  hooks : ∀ hook ∈ natives.hooks, ∀ {id w}, Asks (hook id) w fun e => w.Finds id e

namespace Plugin

/-- A plugin that leaves everything but operators as it is for any instance. -/
theorem reads_of_operator {operator : Operation → Effect σ (Option Expr)}
    (h : ∀ operation (w : World σ), AnswersAbout (operator operation) w operation.subject) :
    Reads ({ operator := operator } : Plugin σ) where
  property := .resolveSlot
  element := .read_bind .throw
  operator := h _ _
  call := .read_bind .throw
  onSeal := rfl

/-- Classes without a plugin only read. -/
theorem reads_plainClass : Reads (plainClass : Plugin σ) where
  property := .resolveSlot
  element := .read_bind .throw
  operator := .identityOperator
  call := by
    refine .read_bind ?_
    dsimp only
    split
    · exact .pure fun e he => CallOutcome.produced.inj he ▸ .text
    · exact .throw
  onSeal := rfl

/-- Texts only read. -/
theorem reads_string : Reads (string : Plugin σ) where
  property {id name w} := by
    simp only [string]
    split
    · exact Asks.stringOf.bind fun text _ => AnswersAbout.literal _
    · exact .resolveSlot
  element := .read_bind .throw
  operator := .stringOperator
  call := .read_bind .throw
  onSeal := rfl

/-- Arrays only read. -/
theorem reads_array : Reads (array : Plugin σ) where
  property {id name w} := by
    simp only [array]
    split
    · exact Asks.elementsOf.bind fun elements _ => AnswersAbout.literal _
    · exact .resolveSlot
  element := .arrayElement
  operator := .identityOperator
  call := by
    simp only [array, arrayCall]
    refine .read_bind ?_
    split
    · exact .throw
    · split
      · exact .pure fun e he => by cases he
      · refine Asks.stringOf.bind fun separator _ => Asks.elementsOf.bind fun elements _ =>
          .read_bind ?_
        split
        · exact .pure fun e he => CallOutcome.produced.inj he ▸ .literal _
        · exact .pure fun e he => by cases he
  onSeal := rfl

/-- Reflections only read. -/
theorem reads_type : Reads (type : Plugin σ) where
  property {id name w} := by
    simp only [type]
    split
    · exact Asks.typeOf.bind fun ty _ => Asks.read_bind (AnswersAbout.literal _)
    · exact .resolveSlot
  element := .read_bind .throw
  operator := .typeOperator
  call := .read_bind .throw
  onSeal := rfl

end Plugin

namespace Natives

/-- The built-in plugins and the `toString` hook only read. -/
theorem reads_builtin : (builtin : Natives σ).Reads where
  plugins entry hentry := by
    simp only [builtin, List.mem_cons, List.not_mem_nil, or_false] at hentry
    rcases hentry with rfl | rfl | rfl | rfl | rfl | rfl
    · exact Plugin.reads_of_operator fun _ _ => .intOperator
    · exact Plugin.reads_of_operator fun _ _ => .floatOperator
    · exact Plugin.reads_string
    · exact Plugin.reads_of_operator fun _ _ => .boolOperator
    · exact Plugin.reads_array
    · exact Plugin.reads_type
  hooks hook hhook := by
    obtain rfl := List.mem_singleton.mp hhook
    exact .read (.literal _)

/-- A plugin that is found is a registered one. -/
theorem mem_of_nearest? {natives : Natives σ} {types : Registry} {ty : TypeId} {plugin : Plugin σ}
    (h : natives.nearest? types ty = some plugin) : ∃ t, (t, plugin) ∈ natives.plugins := by
  obtain ⟨t, -, ht⟩ := List.exists_of_findSome?_eq_some h
  obtain ⟨before, after, hsplit, -⟩ := List.lookup_eq_some_iff.mp ht
  exact ⟨t, by rw [hsplit]; simp⟩

/-- What holds of the registered plugins and of plain classes holds of the plugin that speaks for a
type. -/
theorem forall_pluginFor {natives : Natives σ} {P : Plugin σ → Prop} (hplain : P .plainClass)
    (h : ∀ entry ∈ natives.plugins, P entry.2) (types : Registry) (ty : TypeId) :
    P (natives.pluginFor types ty) := by
  rw [Natives.pluginFor]
  cases hfound : natives.nearest? types ty with
  | none => exact hplain
  | some plugin =>
    obtain ⟨t, hmem⟩ := mem_of_nearest? hfound
    exact h (t, plugin) hmem

/-- The plugin that speaks for a type only reads if the registered ones do. -/
theorem Reads.pluginFor {natives : Natives σ} (hn : natives.Reads) (types : Registry)
    (ty : TypeId) : (natives.pluginFor types ty).Reads :=
  forall_pluginFor Plugin.reads_plainClass hn.plugins types ty

end Natives

/-! ## Where no handle dangles -/

/-- What is answered about an instance of the heap mentions only what is on the heap. -/
theorem AnswersAbout.answers {step : Effect σ (Option Expr)} {id : InstanceId}
    (h : AnswersAbout step w id) (hw : w.Grounded) (hid : w.heap.Has (.object id)) :
    Answers step w :=
  Asks.mono h fun _ hanswer e he => (hanswer e he).covers hw hid

/-- Plugins that only read are inert. -/
theorem Plugin.Reads.inert {p : Plugin σ} (h : p.Reads) : p.Inert where
  property hw hid := h.property.answers hw hid
  element hw hid _ := h.element.answers hw hid
  operator {operation _} hw hids := h.operator.answers hw (hids _ (by
    cases operation <;> exact List.mem_cons_self))
  call hw hreceiver _ := h.call.mono fun _ houtcome e he => (houtcome e he).covers hw hreceiver
  onSeal := h.onSeal

namespace Natives

/-- Plugins and hooks that only read are inert. -/
theorem Reads.inert {natives : Natives σ} (hn : natives.Reads) : natives.Inert where
  plugins entry hentry := (hn.plugins entry hentry).inert
  hooks hook hhook {_ _} hw hid := (hn.hooks hook hhook).mono fun _ he => he.covers hw hid

/-- The built-in plugins and the `toString` hook are inert. -/
theorem inert_builtin : (builtin : Natives σ).Inert := reads_builtin.inert

/-- The plugin that speaks for a type is inert if the registered ones are. -/
theorem Inert.pluginFor {natives : Natives σ} (hn : natives.Inert) (types : Registry)
    (ty : TypeId) : (natives.pluginFor types ty).Inert :=
  forall_pluginFor Plugin.reads_plainClass.inert hn.plugins types ty

end Natives

/-! ## Whatever is asked -/

/-- A plugin that only reads the world, whatever it is asked, and has no verdict on evaluations. -/
structure Plugin.Steady (p : Plugin σ) : Prop where
  /-- Asked for a member. -/
  property : ∀ {id name w}, Asks (p.property id name) w fun _ => True
  /-- Asked for an element. -/
  element : ∀ {id position w}, Asks (p.element id position) w fun _ => True
  /-- Asked for the result of an operator. -/
  operator : ∀ {operation w}, Asks (p.operator operation) w fun _ => True
  /-- Asked to answer a call. -/
  call : ∀ {receiver m args w}, Asks (p.call receiver m args) w fun _ => True
  /-- Told that an instance is final. -/
  onSeal : ∀ {id w}, Asks (p.onSeal id) w fun _ => True

/-- Plugins and hooks that only read the world. -/
structure Natives.Steady (natives : Natives σ) : Prop where
  /-- The plugins. -/
  plugins : ∀ entry ∈ natives.plugins, entry.2.Steady
  /-- The hooks. -/
  hooks : ∀ hook ∈ natives.hooks, ∀ {id w}, Asks (hook id) w fun _ => True

/-- Plugins that answer with what they find are steady. -/
theorem Plugin.Reads.steady {p : Plugin σ} (h : p.Reads) : p.Steady where
  property := h.property.any
  element := h.element.any
  operator := h.operator.any
  call := h.call.any
  onSeal := Ends.of_ok h.onSeal ⟨rfl, trivial⟩

/-- Classes without a plugin are steady. -/
theorem Plugin.steady_plainClass : Steady (plainClass : Plugin σ) := reads_plainClass.steady

/-- The built-in plugins and the `toString` hook are steady. -/
theorem Natives.steady_builtin : (builtin : Natives σ).Steady where
  plugins entry hentry := (reads_builtin.plugins entry hentry).steady
  hooks hook hhook := (reads_builtin.hooks hook hhook).any

end ObjectGraph
