import ObjectGraph.Proofs.Run.Calls

/-!
# Handles never dangle

Every handle that the heap holds somewhere leads to a record of the heap, every scope lies in an older
one, and so walks along chains of scopes come to an end (`Heap.Intact`). Whatever a host has asked
for, and at every step on the way, this holds of the heap (`World.handles_intact`).

That nothing dangles is part of the soundness of worlds. What is added here is the nesting of scopes:
a step gives new scopes parents that have been on the heap before them, and changes no parent
(`Step.nests`).
-/

namespace ObjectGraph

variable {σ : Type} {natives : Natives σ} {w w' : World σ}

namespace Heap

/-- Some place of the heap holds the handle. -/
inductive Holds (h : Heap) : Node → Prop
  /-- A binding, a property or an array element, with the statements in it. -/
  | cell {c : Cell} {e : Expr} {n : Node} : h.read? c = some e → n ∈ e.handles → Holds h n
  /-- A scope, as its parent. -/
  | parent {s p : ScopeId} : (h.scope s).parent = some p → Holds h (.scope p)
  /-- A scope, as its receiver. -/
  | receiver {s : ScopeId} {id : InstanceId} : (h.scope s).receiver = some id → Holds h (.object id)
  /-- An instance, as one of its constructor scopes. -/
  | constructor {id : InstanceId} {entry : TypeId × ScopeId} :
    entry ∈ (h.get id).scopes → Holds h (.scope entry.2)
  /-- A promise, in its result. -/
  | resolved {id : PromiseId} {e : Expr} {n : Node} :
    h.promise id = .resolved e → n ∈ e.handles → Holds h n

/-- The handle's position has a record, which is what the heap gives for the handle. -/
def Finds (h : Heap) : Node → Prop
  | .scope id => h.scopes[id.index]? = some (h.scope id)
  | .object id => h.instances[id.index]? = some (h.get id)
  | .promise id => h.promises[id.index]? = some (h.promise id)

/-- No handle of the heap dangles, and all walks outwards from its scopes end. -/
structure Intact (h : Heap) : Prop where
  /-- Handles are below the size of their store, so that they are found. -/
  held : ∀ n, h.Holds n → h.Has n ∧ h.Finds n
  /-- So is whatever following handles comes to. -/
  reached : ∀ n m, h.Has n → h.Reaches n m → h.Finds m
  /-- Scopes are younger than their parents. -/
  nested : h.Nested
  /-- Walks from scope to parent end. -/
  ends : ∀ s, h.Has (.scope s) → h.ChainEnds s

variable {h : Heap} {n : Node}

/-- A position below the size of a store has a record. -/
theorem Has.finds (hn : h.Has n) : h.Finds n := by
  have hrecord {α : Type} {records : Array α} {i : ℕ} (d : α) (hi : i < records.size) :
      records[i]? = some (records.getD i d) := by
    rw [Array.getD_eq_getD_getElem?, Array.getElem?_eq_getElem hi, Option.getD_some]
  cases n with
  | scope id => exact hrecord default hn
  | object id => exact hrecord default hn
  | promise id => exact hrecord default hn

/-- What a grounded heap holds is on the heap. -/
theorem Grounded.has_of_holds (hg : h.Grounded) (hn : h.Holds n) : h.Has n := by
  cases hn with
  | cell hread hmem => exact hg.cell hread n hmem
  | parent hp => exact hg.parent hp
  | receiver hr => exact hg.receiver hr
  | constructor hs => exact hg.scopes hs
  | @resolved id e n hp hmem =>
    have hpromise : h.CoversPromise (h.promise id) := hg.promise id
    rw [hp] at hpromise
    exact hpromise n hmem

/-- A grounded heap with nested scopes is intact. -/
theorem Grounded.intact (hg : h.Grounded) (hn : h.Nested) : h.Intact where
  held _ hheld := ⟨hg.has_of_holds hheld, (hg.has_of_holds hheld).finds⟩
  reached _ _ hhas hreach := (hg.has_of_reaches hhas hreach).finds
  nested := hn
  ends _ hs := hn.chainEnds hg hs

/-- Marking instances as final changes no scope. -/
theorem scopes_markAllSealed (ids : List InstanceId) (h : Heap) :
    (h.markAllSealed ids).scopes = h.scopes := by
  induction ids generalizing h with
  | nil => rfl
  | cons id ids ih => exact ih (h.markSealed id)

end Heap

namespace World

/-- **A step puts new scopes into older ones**, and changes no parent. -/
theorem Step.nests (hn : natives.Inert) (hw : w.Sound) (h : Step natives w w') :
    w.heap.NestsIn w'.heap := by
  cases h with
  | construct hargs => exact (Keeps.construct natives hw.toGrounded hargs).after.nests
  | pass c =>
    exact Effect.after_sweepCell (P := fun w' => w.heap.NestsIn w'.heap) hn hw.toGrounded
      (fun w₁ hc => hc.nests) fun e next w₁ _ _ hc _ => hc.nests.trans (.write c next)
  | @seals ids hids =>
    -- Sealing changes nothing but marks.
    have hscopes : ((Effect.sealDiscovered natives ids).after w).heap.scopes = w.heap.scopes := by
      refine Ends.after (P := fun w' => w'.heap.scopes = w.heap.scopes) (Ends.bind (Ends.of_ok rfl
        (Ends.of_ok (Effect.sealEach_eq_markAllSealed hn _ _) ?_)))
      exact Heap.scopes_markAllSealed _ w.heap
    exact .of_parents_eq fun s => by rw [Heap.scope, Heap.scope, hscopes]
  | await ids =>
    refine .of_parents_eq fun s => ?_
    show (Heap.scope (Heap.await ids w.heap).2 s).parent = _
    rw [Heap.scope, Heap.scope, Heap.scopes_await]

/-- Steps one after the other put new scopes into older ones. -/
theorem Later.nests (hn : natives.Inert) (hw : w.Sound) (h : Later natives w w') :
    w.heap.NestsIn w'.heap := by
  induction h with
  | refl => exact .refl
  | tail hlater hstep ih =>
    have hsettles := Later.settles hn hw hlater
    exact ih.trans (hstep.nests hn hsettles.sound)

/-- Before the first call no scope lies in another one. -/
theorem Initial.nested (h : w.Initial) : w.heap.Nested := by
  intro s p hp
  rw [Heap.scope, h.noScopes] at hp
  cases hp

/-- Whatever calls have been made, scopes are nested. -/
theorem Initial.nested_of_calls (hn : natives.Inert) {w₀ : World σ} (h₀ : w₀.Initial)
    (h : Relation.ReflTransGen (Call natives) w₀ w) : w.heap.Nested := by
  induction h with
  | refl => exact h₀.nested
  | tail hcalls hcall ih =>
    have hsound := h₀.sound_of_calls hn hcalls
    exact ih.extend ((hcall.later hn hsound).nests hn hsound)

/-- **Handles never dangle.** Whatever calls have been made, whether they have failed or not, every
handle that the heap holds is below the size of its store, so that looking it up finds a record, and
every scope is younger than its parent, so that walks outwards end. This holds after each step of the
calls that follow as well, and all calls are made up of such steps. -/
theorem handles_intact {w₀ w : World σ} (h₀ : w₀.Initial)
    (hcalls : Relation.ReflTransGen (Call .builtin) w₀ w) :
    w.heap.Intact ∧
      (∀ w', w.Later .builtin w' → w'.heap.Intact) ∧
      ∀ w', Call .builtin w w' → w.Later .builtin w' := by
  have hn : (Natives.builtin : Natives σ).Inert := Natives.inert_builtin
  have hw : w.Sound := h₀.sound_of_calls hn hcalls
  have hnested : w.heap.Nested := h₀.nested_of_calls hn hcalls
  have hlater (w' : World σ) (h : w.Later .builtin w') : w'.heap.Intact := by
    have hsettles : w.Settles w' := h.settles hn hw
    exact hsettles.sound.heap.intact (hnested.extend (h.nests hn hw))
  exact ⟨hlater w .refl, hlater, fun w' hcall => hcall.later hn hw⟩

end World

/-! ## A call with a local variable -/

/-- A class with a property that is what a method returns, by way of a variable. -/
def callingWithLocal : ClassBody where
  properties := [⟨"a", .visible, .int, some (.call (.member (.this .main) "m" .any) [] [] .int)⟩]
  methods := [⟨"m", [], [], .int,
    some ⟨[.declare "n" .int (.int 1), .result (.variable "n" .int)], .int⟩, .main⟩]

namespace World

/-- The world of the class after an instance of it has been asked for and evaluated. -/
def withLocal : World Unit :=
  (Effect.run .builtin {} ⟨0⟩).after
    ((Effect.construct .builtin .main []).after (.ofTypes (.ofClass callingWithLocal) ()))

/-- The scope of the variable lies in that of the call, and this one in the constructor scope of the
class, where a walk outwards ends. -/
theorem handles_intact_withLocal :
    withLocal.heap.chain ⟨3⟩ = [⟨3⟩, ⟨2⟩, ⟨0⟩] ∧ withLocal.heap.Intact := by
  have hinitial : (ofTypes (.ofClass callingWithLocal) () : World Unit).Initial :=
    initial_ofTypes (by decide +kernel)
  have hconstruct : Call .builtin _ ((Effect.construct .builtin .main []).after
      (.ofTypes (.ofClass callingWithLocal) () : World Unit)) :=
    .instantiate fun e he => by cases he
  have hroot : ((Effect.construct .builtin .main []).after
      (.ofTypes (.ofClass callingWithLocal) () : World Unit)).heap.Has (.object ⟨0⟩) := by
    show 0 < Array.size _
    decide +kernel
  have hcalls := (Relation.ReflTransGen.single hconstruct).tail (.run {} hroot)
  exact ⟨by decide +kernel, (handles_intact hinitial hcalls).1⟩

end World

end ObjectGraph
