import ObjectGraph.Proofs.Run.Calls
import ObjectGraph.Proofs.Run.Typing

/-!
# No placeholder at runtime

Generic placeholders stand for types in programs, and are replaced when a method is entered, an
array is made or a type is reflected. So whatever steps have been taken, no placeholder is left in
the generic arguments of scopes, in the types of arrays, and in the types that reflections stand
for (`World.runtime_types_concrete`). Values that the host has handed over as results of promises
are an exception, since the host may give them any type. What array literals and reflections make is
none.

This takes a registry in which a request for types without placeholders is never answered by a type
with one. It is so where the names are plain (`Registry.Legible.faithful`).
-/

namespace ObjectGraph

variable {σ α : Type} {base r : Registry} {natives : Natives σ} {w w' : World σ}

/-! ## Steps -/

/-- A step of a pass that is taken by itself. -/
def Reduction.alone (step : Reduction σ α) : Effect σ α := fun w =>
  match step ⟨w, 0⟩ with
  | .ok a s => .ok a s.world
  | .error e s => .error e s.world

/-- What holds of a step in a pass holds of it when it is taken by itself. -/
theorem Ends.alone {step : Reduction σ α} {yields : α → World σ → Prop}
    {fails : EvalError → World σ → Prop}
    (h : Ends step ⟨w, 0⟩ (fun a s => yields a s.world) fun e s => fails e s.world) :
    Ends step.alone w yields fails := by
  unfold Ends at h ⊢
  unfold Reduction.alone
  cases hs : step ⟨w, 0⟩ with
  | ok a s => rw [hs] at h; exact h
  | error e s => rw [hs] at h; exact h

namespace Upholds

/-- A step of a pass. -/
theorem alone {step : Reduction σ α} {yields : α → World σ → Prop}
    (h : Upholds base Pass.world step ⟨w, 0⟩ yields) : Upholds base id step.alone w yields :=
  Ends.alone h

/-- A pass over an expression of the heap. -/
theorem pass (hn : natives.Reads) (hw : w.Typed base) {e : Expr}
    (he : e.TypesBelow w.types.size) :
    Upholds base id (Effect.pass natives none e) w
      fun result w' => result.1.TypesBelow w'.types.size :=
  Effect.ends_pass (e.leaves hn none (s := ⟨w, 0⟩) hw he)

/-- A pass over a cell. -/
theorem sweepCell (hn : natives.Reads) (hw : w.Typed base) (c : Cell) :
    Upholds base id (Effect.sweepCell natives c) w fun _ _ => True := by
  refine .read_bind ?_
  split
  · exact .pure hw.refl trivial
  · rename_i e hread
    split
    · exact .pure hw.refl trivial
    · refine (pass hn hw (hw.heap.cell hread)).bind fun result w₁ hd₁ he => ?_
      exact (modifyHeap hd₁.typed (hd₁.typed.heap.write c he) (.write c _)).bind
        fun _ w₂ hd₂ _ => .pure hd₂.typed.refl trivial

/-- Sealing instances in order. -/
theorem sealEach (hn : natives.Reads) (ids : List InstanceId) (hw : w.Typed base) :
    Upholds base id (Effect.sealEach natives ids) w fun _ _ => True := by
  induction ids generalizing w with
  | nil => exact .pure hw.refl trivial
  | cons first ids ih =>
    -- The plugin is told of it, and does nothing.
    have hone : Upholds base id (Effect.sealOne natives first) w fun _ _ => True :=
      Ends.of_ok (Effect.sealOne_eq_markSealed hn.inert first w)
        ⟨hw.onHeap (hw.heap.markSealed first) (.modifyInstance first fun _ => rfl), trivial⟩
    exact hone.bind fun _ w₁ hd₁ _ => (ih hd₁.typed).bind fun _ w₂ hd₂ _ =>
      .pure hd₂.typed.refl trivial

end Upholds

namespace World

/-- A step that a call takes, where what the host asks for has registered types. The parts of a pass
are steps as well, so that what is reached in the middle of one counts too. -/
inductive TypedStep (natives : Natives σ) (w : World σ) : World σ → Prop
  /-- An instance of a registered class is built from arguments with registered types. -/
  | construct {cls : TypeId} {args : List Expr} (hcls : cls.index < w.types.size)
    (hargs : ∀ e ∈ args, e.TypesBelow w.types.size) :
    TypedStep natives w ((Effect.construct natives cls args).after w)
  /-- An expression is reduced. -/
  | reduce (scope : Option ScopeId) {e : Expr} (he : e.TypesBelow w.types.size) :
    TypedStep natives w ((e.reduce natives scope).alone.after w)
  /-- A call goes on, the callee and arguments of which have been reduced. -/
  | call (scope : Option ScopeId) {callee : Expr} {args : List Expr} {typeArgs : TypeArgs}
    {ty : TypeId} (hcall : (Expr.call callee args typeArgs ty).TypesBelow w.types.size) :
    TypedStep natives w ((Reduction.call natives scope callee args typeArgs ty).alone.after w)
  /-- A value that has been reduced is put into a cell. -/
  | write (c : Cell) {e : Expr} (he : e.TypesBelow w.types.size) :
    TypedStep natives w ((Effect.modifyHeap (·.write c e)).after w)
  /-- A cell gets a pass. -/
  | pass (c : Cell) : TypedStep natives w ((Effect.sweepCell natives c).after w)
  /-- What can be sealed among instances is sealed. -/
  | seals (ids : List InstanceId) :
    TypedStep natives w ((Effect.sealDiscovered natives ids).after w)
  /-- Promises are run. -/
  | await (ids : List PromiseId) :
    TypedStep natives w ((Effect.onHeap (Heap.await ids)).after w)

/-- What becomes of a world in such steps. -/
abbrev TypedLater (natives : Natives σ) : World σ → World σ → Prop :=
  Relation.ReflTransGen (TypedStep natives)

/-- **A step leads from a well-typed world to another.** -/
theorem TypedStep.develops (hn : natives.Reads) (hw : w.Typed base) (h : TypedStep natives w w') :
    w.Develops base w' := by
  cases h with
  | construct hcls hargs => exact (Upholds.construct natives hw hcls hargs).after
  | @reduce scope e he => exact (Upholds.alone (e.leaves hn scope hw he)).after
  | call scope hcall => exact (Upholds.alone (Leaves.call hn hw hcall)).after
  | write c he => exact (Upholds.modifyHeap hw (hw.heap.write c he) (.write c _)).after
  | pass c => exact (Upholds.sweepCell hn hw c).after
  | seals ids => exact Moves.after (.read_bind (Upholds.sealEach hn _ hw))
  | await ids =>
    exact (Upholds.onHeap hw (hw.heap.await ids)
      (.of_instances_eq (Heap.instances_await ids _) (Heap.size_promises_awaitIn ..))).after

/-- Steps one after the other lead from a well-typed world to another. -/
theorem TypedLater.develops (hn : natives.Reads) (hw : w.Typed base)
    (h : TypedLater natives w w') : w.Develops base w' := by
  induction h with
  | refl => exact hw.refl
  | tail _ hstep ih => exact ih.trans (hstep.develops hn ih.typed)

/-- An evaluation takes such steps. -/
theorem typedLater_run (natives : Natives σ) (settings : Settings) (root : InstanceId)
    (w : World σ) : w.TypedLater natives ((Effect.run natives settings root).after w) :=
  (Takes.runFrom (fun _ c => .pass c) (fun _ ids => .await ids) settings.order settings.maxSweeps {}
    fun _ _ _ _ => .seals _).after

/-! ## Types at runtime -/

/-- Nothing that is for runtime mentions a placeholder, unless the host has handed it over. -/
structure RuntimeConcrete (w : World σ) : Prop where
  /-- Generic arguments. -/
  typeArgs : ∀ {s entry}, entry ∈ (w.heap.scope s).typeArgs → w.types.Concrete entry.2
  /-- The types of arrays. -/
  array : ∀ {id elements}, (w.heap.get id).payload = .array elements →
    w.types.Concrete (w.heap.get id).ty ∨ w.heap.HandedOver id
  /-- The types that reflections stand for. -/
  reflection : ∀ {id ty}, (w.heap.get id).payload = .type ty →
    w.types.Concrete ty ∨ w.heap.HandedOver id

/-- In a well-typed world, nothing that is for runtime mentions a placeholder. -/
theorem Typed.runtimeConcrete (hw : w.Typed base) : w.RuntimeConcrete where
  typeArgs hentry := hw.heap.typeArgs hentry
  array hpayload := hw.heap.shown (by rw [Instance.shown?, hpayload])
  reflection hpayload := hw.heap.shown (by rw [Instance.shown?, hpayload])

/-- Before the first call the world is well typed if the program is, and the results that promises
will have. -/
theorem Initial.typed (h : w.Initial) (hprogram : w.types.WellFormed)
    (hfaithful : w.types.Faithful)
    (hpromises : ∀ id, (w.heap.promise id).TypesBelow w.types.size) : w.Typed w.types := by
  have hscope (s : ScopeId) : w.heap.scope s = default := by
    rw [Heap.scope, h.noScopes]
    rfl
  have hget (id : InstanceId) : w.heap.get id = default := by
    rw [Heap.get, h.noInstances]
    rfl
  refine ⟨hprogram, hfaithful, .refl, fun {c e} hc => ?_, fun {s entry} hentry => ?_, fun id => ?_,
    fun {id ty} hs => ?_, hpromises⟩
  · cases c with
    | binding s i => rw [Heap.read?, hscope] at hc; cases hc
    | slot id i => rw [Heap.read?, hget] at hc; cases hc
    | element id i => rw [Heap.read?, hget] at hc; cases hc
  · rw [hscope] at hentry
    cases hentry
  · rw [hget]
    exact Nat.lt_of_lt_of_le (by decide) hprogram.toHasBuiltins.size
  · rw [hget] at hs
    cases hs

/-- **No placeholder is left in types at runtime.** Whatever steps have been taken, generic
arguments mention none, and neither do the types of arrays and reflections, except of those that
the host has handed over. What array literals and reflections make is no exception: wherever they
are reduced, they make values that show types without placeholders ever after. A value that the host
has handed over is the result of a promise that was there before the first call. All evaluations are
made up of such steps. -/
theorem runtime_types_concrete {w₀ w : World σ} (h₀ : w₀.Initial)
    (hprogram : w₀.types.WellFormed) (hfaithful : w₀.types.Faithful)
    (hpromises : ∀ id, (w₀.heap.promise id).TypesBelow w₀.types.size)
    (hsteps : w₀.TypedLater .builtin w) :
    w.RuntimeConcrete ∧
      (∀ (e : Expr) scope, e.IsShowing → e.TypesBelow w.types.size →
        Ends (e.reduce .builtin scope).alone w
          (fun e' w' => ∃ id ty, e' = .object id ∧
            ∀ w'', w'.TypedLater .builtin w'' → w''.Shows id ty)
          fun _ _ => False) ∧
      (∀ id, w.heap.HandedOver id →
        ∃ p, w₀.heap.Has (.promise p) ∧ w.heap.promise p = .resolved (.object id)) ∧
      ∀ settings root, w.TypedLater .builtin ((Effect.run .builtin settings root).after w) := by
  have hw₀ : w₀.Typed w₀.types := h₀.typed hprogram hfaithful hpromises
  have hdevelops : w₀.Develops w₀.types w := hsteps.develops Natives.reads_builtin hw₀
  refine ⟨hdevelops.typed.runtimeConcrete, fun e scope hshowing he => ?_, fun id hid => ?_,
    fun settings root => typedLater_run .builtin settings root w⟩
  · have hexhibits : Exhibits w₀.types (e.reduce .builtin scope) ⟨w, 0⟩ :=
      hshowing.exhibits .builtin scope hdevelops.typed he
    refine Ends.alone (Ends.mono hexhibits (fun e' s' he' => ?_) fun _ _ hf => hf)
    obtain ⟨hd, id, ty, rfl, hshows⟩ := he'
    refine ⟨id, ty, rfl, fun w'' hlater => ?_⟩
    exact (hlater.develops Natives.reads_builtin hd.typed).shows hd.typed hshows
  · obtain ⟨p, hp⟩ := hid
    have hhas : w.heap.Has (.promise p) := of_not_not fun hnot => by
      rw [Heap.promise_of_not_has hnot] at hp
      cases hp
    rw [Heap.Has, hdevelops.conserves.promises] at hhas
    exact ⟨p, hhas, hp⟩

end World

/-! ## Nested generic calls -/

namespace Registry

/-- Requests that are answered one after the other. -/
def answers (qs : List Request) (r : Registry) : Registry := qs.foldl (fun r q => (q.answer r).2) r

/-- Answering requests extends a registry. -/
theorem Extends.answers (qs : List Request) : r.Extends (r.answers qs) := by
  induction qs generalizing r with
  | nil => exact .refl
  | cons q qs ih =>
    have hfirst : r.Extends (q.answer r).2 := by
      rw [q.answer_eq]
      exact .findOrInsert _
    exact hfirst.trans ih

/-- The class `Main`, and the types that its generic methods are written with: placeholders `T` and
`U` and their array types. -/
def withGenerics : Registry :=
  (insert (.plain "Main" .nominal (some .any)) initial).2.answers
    [.placeholder "Main.wrap" "T", .array ⟨8⟩, .placeholder "Main.nest" "U", .array ⟨10⟩]

/-- A method that makes an array of its argument and reflects the argument's type, one that calls
it with an array, and a property with such a call for an integer. -/
def genericBody : ClassBody where
  properties := [⟨"p", .visible, .anyArray, some
    (.call (.member (.this .main) "nest" .any) [.int 1] [(⟨10⟩, .int)] .anyArray)⟩]
  methods := [
    { name := "wrap", params := [⟨"x", ⟨8⟩⟩], generics := [⟨8⟩], result := ⟨9⟩, declaring := .main
      body := some ⟨[.declare "k" .type (.unary .typeOf (.param "x" ⟨8⟩) .type),
        .result (.array [.param "x" ⟨8⟩] ⟨9⟩)], ⟨9⟩⟩ },
    { name := "nest", params := [⟨"y", ⟨10⟩⟩], generics := [⟨10⟩], result := .anyArray
      declaring := .main
      body := some ⟨[.result (.call (.member (.this .main) "wrap" .any)
        [.array [.param "y" ⟨10⟩] ⟨11⟩] [(⟨8⟩, ⟨11⟩)] .anyArray)], .anyArray⟩ }]

/-- The types of the program. -/
def ofGenerics : Registry := withGenerics.defineClass .main genericBody

/-- The program arises with plain names. -/
theorem reachable_ofGenerics : Reachable .plain ofGenerics := by
  have hmain : Reachable .plain (insert (.plain "Main" .nominal (some .any)) initial).2 :=
    .single (.register (d := .plain "Main" .nominal (some .any)) rfl
      ⟨by decide, forall_not_mem_of_all (by decide)⟩ rfl)
  have hT := hmain.tail (.request (.placeholder "Main.wrap" "T") ⟨nofun, ?_⟩)
  have hTs := hT.tail (.request (.array ⟨8⟩) ⟨by decide +kernel, nofun⟩)
  have hU := hTs.tail (.request (.placeholder "Main.nest" "U") ⟨nofun, ?_⟩)
  have hUs := hU.tail (.request (.array ⟨10⟩) ⟨by decide +kernel, nofun⟩)
  · exact hUs.tail (.complete .main _ (fun _ => rfl) fun _ => rfl)
  all_goals
    rintro owner name ⟨⟩
    exact ⟨by decide +kernel, by decide, forall_not_mem_of_all (by decide)⟩

/-- The built-in types are at their places. -/
theorem hasBuiltins_ofGenerics : ofGenerics.HasBuiltins := by
  have hmain := hasBuiltins_initial.extend (.insert (.plain "Main" .nominal (some .any)))
  exact (hmain.extend (.answers _)).defineClass (Nat.le_refl _) genericBody

/-- The program is well formed. -/
theorem wellFormed_ofGenerics : ofGenerics.WellFormed where
  toCoherent := reachable_ofGenerics.coherent
  toHasBuiltins := hasBuiltins_ofGenerics
  linked := linked_of_forall (by decide +kernel)

end Registry

namespace World

/-- The world of the program, before the first call. -/
def ofGenerics : World Unit := .ofTypes .ofGenerics ()

/-- The world after an instance of the class has been asked for and evaluated. -/
def withGenerics : World Unit :=
  (Effect.run .builtin {} ⟨0⟩).after ((Effect.construct .builtin .main []).after ofGenerics)

/-- The nested calls have made an array of arrays of integers, and a reflection of the type of
arrays of integers. Where they were made, the methods' placeholders stood for the type of integers
and for that of arrays of integers, and no placeholder is left in any of the types. -/
theorem runtime_types_concrete_nested :
    let w := withGenerics
    let ints := (w.heap.get ⟨2⟩).ty
    (w.heap.scope ⟨2⟩).typeArgs = [(⟨10⟩, .int)] ∧ (w.heap.scope ⟨3⟩).typeArgs = [(⟨8⟩, ints)] ∧
      (w.heap.get ⟨3⟩).shown? = some ints ∧ w.types.kind ints = .array .int ∧
      w.types.kind (w.heap.get ⟨4⟩).ty = .array ints ∧ (w.heap.get ⟨4⟩).payload.elements ≠ [] ∧
      w.RuntimeConcrete := by
  have hinitial : ofGenerics.Initial := initial_ofTypes (by decide +kernel)
  have hconstruct : ofGenerics.TypedLater .builtin
      ((Effect.construct .builtin .main []).after ofGenerics) :=
    .single (.construct (by decide +kernel) (by decide))
  have hconcrete := runtime_types_concrete hinitial Registry.wellFormed_ofGenerics
    Registry.reachable_ofGenerics.legible.faithful (fun _ => trivial)
    (hconstruct.trans (typedLater_run .builtin {} ⟨0⟩ _))
  exact ⟨by decide +kernel, by decide +kernel, by decide +kernel, by decide +kernel,
    by decide +kernel, by decide +kernel, hconcrete.1⟩

end World

end ObjectGraph
