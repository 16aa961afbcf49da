import ObjectGraph.Proofs.Run.Steps

/-!
# Calls

A host builds instances and evaluates what is below them, in any sequence, and whether a call fails
or not it may go on with the next (`World.Call`). Each call takes nothing but steps (`Call.later`).
For an evaluation that is because sweeps come to instances of the heap only: discovery follows
handles from the root, and none of them dangles. So whatever calls have been made, final instances
are complete and stay as they are (`World.sealing_sound`).
-/

namespace ObjectGraph

variable {σ α β : Type} {natives : Natives σ} {w w' : World σ}

/-! ## What discovery finds -/

namespace Heap.Grounded

variable {h : Heap} {n m : Node} {e : Expr}

/-- What an expression mentions is on the heap, the results of promises included. -/
theorem has_handles (hg : h.Grounded) (he : h.Covers e) (hn : n ∈ h.handles e) : h.Has n := by
  obtain ⟨t, ht, hn⟩ := List.mem_flatMap.mp hn
  have hown := covers_iff.mp he t ht
  unfold ownHandles at hn
  split at hn
  · rename_i id ty
    rcases List.mem_cons.mp hn with rfl | hn
    · exact hown _ List.mem_cons_self
    · have hpromise := hg.promise id
      unfold resultHandles at hn
      split at hn
      · rename_i value heq
        rw [heq] at hpromise
        exact hpromise n hn
      · cases hn
  · exact hown n hn

/-- What a node leads to is on the heap. -/
theorem has_leads (hg : h.Grounded) (hm : m ∈ h.leads n) : h.Has m := by
  cases n with
  | scope s =>
    rw [leads, scopeEdges, List.mem_append, List.mem_append] at hm
    rcases hm with (hm | hm) | hm
    · obtain ⟨p, hp, rfl⟩ := List.mem_map.mp hm
      exact hg.parent (Option.mem_toList.mp hp)
    · obtain ⟨r, hr, rfl⟩ := List.mem_map.mp hm
      exact hg.receiver (Option.mem_toList.mp hr)
    · obtain ⟨b, hb, hm⟩ := List.mem_flatMap.mp hm
      obtain ⟨i, hi⟩ := List.mem_iff_getElem?.mp hb
      exact hg.has_handles (hg.cell (c := .binding s i) (by rw [read?, hi]; rfl)) hm
  | object id =>
    rw [leads] at hm
    split at hm
    · cases hm
    · rcases List.mem_append.mp hm with hm | hm
      · obtain ⟨entry, hentry, rfl⟩ := List.mem_map.mp hm
        exact hg.scopes hentry
      · obtain ⟨e, he, hm⟩ := List.mem_flatMap.mp hm
        exact hg.has_handles (hg.values he) hm
  | promise id => cases hm

/-- What can be reached from something on the heap is on the heap. -/
theorem has_of_reaches (hg : h.Grounded) (hn : h.Has n) (hreach : h.Reaches n m) : h.Has m := by
  induction hreach with
  | refl => exact hn
  | tail _ hstep _ => exact hg.has_leads hstep

/-- The instances that discovery finds are on the heap. -/
theorem has_discover (hg : h.Grounded) {root id : InstanceId} (hroot : h.Has (.object root))
    (hid : id ∈ (h.discover root).instances.toList) : h.Has (.object id) := by
  have hfound : (h.discover root).has (.object id) = true := Listing.mem_toList.mp hid
  exact hg.has_of_reaches hroot ((has_discover_iff root).mp hfound).1

end Heap.Grounded

/-! ## Evaluation takes steps -/

/-- The step leaves a world to which steps of the given kind lead from the one in which it was
taken. -/
def Takes (kind : World σ → World σ → Prop) (step : Effect σ α) (w : World σ) : Prop :=
  Ends step w (fun _ w' => Relation.ReflTransGen kind w w') fun _ w' => Relation.ReflTransGen kind w w'

namespace Takes

variable {kind : World σ → World σ → Prop}

/-- The rule for sequences. -/
theorem bind {step : Effect σ α} {next : α → Effect σ β} (h : Takes kind step w)
    (hnext : ∀ a w', Relation.ReflTransGen kind w w' → Takes kind (next a) w') :
    Takes kind (step >>= next) w := by
  refine Ends.bind (Ends.mono h (fun a w₁ h₁ => ?_) fun _ _ hf => hf)
  exact Ends.mono (hnext a w₁ h₁) (fun _ _ h₂ => h₁.trans h₂) fun _ _ h₂ => h₁.trans h₂

/-- Looking at the world first. -/
theorem read_bind {f : World σ → α} {next : α → Effect σ β} (h : Takes kind (next (f w)) w) :
    Takes kind (Effect.read f >>= next) w :=
  h

/-- A pure step. -/
theorem pure {a : α} : Takes kind (Pure.pure a : Effect σ α) w := Relation.ReflTransGen.refl

/-- A failure. -/
theorem throw {e : EvalError} : Takes kind (throw e : Effect σ α) w := Relation.ReflTransGen.refl

/-- A single step. -/
theorem of_step {step : Effect σ α} (h : kind w (step.after w)) : Takes kind step w := by
  unfold Effect.after at h
  unfold Takes Ends
  cases hs : step w with
  | ok a w' => rw [hs] at h; exact .single h
  | error e w' => rw [hs] at h; exact .single h

/-- What takes steps leads to a later world. -/
theorem after {step : Effect σ α} (h : Takes kind step w) :
    Relation.ReflTransGen kind w (step.after w) :=
  Ends.after (P := Relation.ReflTransGen kind w) h

/-- Steps for each item of a list. -/
theorem sumOver {step : α → Effect σ ℕ} (hstep : ∀ item w, Takes kind (step item) w)
    (items : List α) : Takes kind (Effect.sumOver step items) w := by
  induction items generalizing w with
  | nil => exact .pure
  | cons item items ih => exact (hstep item w).bind fun _ _ _ => ih.bind fun _ _ _ => .pure

variable (hpass : ∀ (w : World σ) c, kind w ((Effect.sweepCell natives c).after w))
include hpass

/-- Passes over cells. -/
theorem sweepCells (cells : List Cell) :
    Takes kind (Effect.sumOver (Effect.sweepCell natives) cells) w :=
  sumOver (fun c w => of_step (hpass w c)) cells

/-- A sweep over a scope. -/
theorem sweepScope (order : SweepOrder) (id : ScopeId) :
    Takes kind (Effect.sweepScope natives order id) w :=
  .read_bind (sweepCells hpass _)

/-- A sweep over an instance. -/
theorem sweepInstance (order : SweepOrder) (id : InstanceId) :
    Takes kind (Effect.sweepInstance natives order id) w :=
  .read_bind ((sweepCells hpass _).bind fun _ _ _ =>
    .read_bind ((sweepCells hpass _).bind fun _ _ _ => .pure))

variable {root : InstanceId}

/-- A sweep seals what was discovered when it began. -/
theorem sweep (order : SweepOrder)
    (hseal : ∀ w₁, Relation.ReflTransGen kind w w₁ →
      kind w₁ ((Effect.sealDiscovered natives (w.heap.discover root).instances.toList).after w₁)) :
    Takes kind (Effect.sweep natives order root) w := by
  refine .read_bind ((sumOver (fun id _ => sweepScope hpass order id) _).bind fun _ w₁ h₁ => ?_)
  refine (sumOver (fun id _ => sweepInstance hpass order id) _).bind fun _ w₂ h₂ => ?_
  exact (of_step (hseal w₂ (h₁.trans h₂))).bind fun _ _ _ => .pure

/-- An evaluation with a given number of sweeps left. -/
theorem runFrom
    (hawait : ∀ (w : World σ) ids, kind w ((Effect.onHeap (Heap.await ids)).after w))
    (order : SweepOrder) (left : ℕ) (stats : RunStats)
    (hseal : ∀ w₁ w₂, Relation.ReflTransGen kind w w₁ → Relation.ReflTransGen kind w₁ w₂ →
      kind w₂ ((Effect.sealDiscovered natives (w₁.heap.discover root).instances.toList).after w₂)) :
    Takes kind (Effect.runFrom natives order root left stats) w := by
  induction left generalizing stats w with
  | zero => exact .throw
  | succ left ih =>
    refine (sweep hpass order (hseal w · .refl)).bind fun cost w₁ h₁ => ?_
    dsimp only
    split
    · exact ih _ fun w₂ w₃ h₂ h₃ => hseal w₂ w₃ (h₁.trans h₂) h₃
    · refine .read_bind ?_
      split
      · refine .read_bind ?_
        split
        · exact .pure
        · exact .throw
      · refine (of_step (hawait _ _)).bind fun _ w₂ h₂ => ?_
        exact ih _ fun w₃ w₄ h₃ h₄ => hseal w₃ w₄ ((h₁.trans h₂).trans h₃) h₄

end Takes

/-! ## Calls -/

namespace World

/-- A call of a host. It leaves a world whether it fails or not. -/
inductive Call (natives : Natives σ) (w : World σ) : World σ → Prop
  /-- An instance of a class is asked for, with arguments of the heap. -/
  | instantiate {cls : TypeId} {args : List Expr} (hargs : ∀ e ∈ args, w.heap.Covers e) :
    Call natives w ((Effect.construct natives cls args).after w)
  /-- What is below an instance is evaluated. -/
  | run (settings : Settings) {root : InstanceId} (hroot : w.heap.Has (.object root)) :
    Call natives w ((Effect.run natives settings root).after w)

/-- Before the first call there are types and promises, and no handles but those of promises. -/
structure Initial (w : World σ) : Prop extends w.Grounded where
  /-- There are no scopes. -/
  noScopes : w.heap.scopes = #[]
  /-- There are no instances. -/
  noInstances : w.heap.instances = #[]

/-- Types that mention nothing of a heap make up an initial world. -/
theorem initial_ofTypes {types : Registry} {host : σ}
    (h : ∀ d ∈ types.defs, ∀ e ∈ d.exprs, e.handles = []) : (ofTypes types host).Initial where
  heap := Heap.grounded_empty
  definitions ty e he n hn := by
    have hd : ty.index < types.size := Nat.lt_of_not_le fun hle => by
      rw [show (ofTypes types host).types = types from rfl, Registry.definition_of_le hle] at he
      cases he
    have hmem : types.definition ty ∈ types.defs := by
      rw [Registry.definition, Array.getD_eq_getD_getElem?, Array.getElem?_eq_getElem hd]
      exact Array.getElem_mem hd
    rw [h _ hmem e he] at hn
    cases hn
  noScopes := rfl
  noInstances := rfl

/-- Before the first call nothing is final. -/
theorem Initial.sound (h : w.Initial) : w.Sound := by
  have hopen (id : InstanceId) : (w.heap.get id).sealed = false := by
    rw [Heap.get, h.noInstances]
    rfl
  refine ⟨h.toGrounded, fun {id e} hs _ => ?_, fun {id e r} hs _ _ => ?_⟩
  · rw [hopen] at hs
    cases hs
  · rw [hopen] at hs
    cases hs

/-- A call takes steps. -/
theorem Call.later (hn : natives.Inert) (hw : w.Sound) (h : Call natives w w') :
    w.Later natives w' := by
  cases h with
  | instantiate hargs => exact .single (.construct hargs)
  | @run settings root hroot =>
    -- What was discovered is on the heap when it is sealed.
    have hseal (w₁ w₂ : World σ) (h₁ : w.Later natives w₁) (h₂ : w₁.Later natives w₂) :
        w₂.Step natives ((Effect.sealDiscovered natives
          (w₁.heap.discover root).instances.toList).after w₂) := by
      have hs₁ := h₁.settles hn hw
      have hs₂ := h₂.settles hn hs₁.sound
      exact .seals fun id hid => hs₂.has (hs₁.sound.heap.has_discover (hs₁.has hroot) hid)
    exact (Takes.runFrom (fun _ c => .pass c) (fun _ ids => .await ids) settings.order
      settings.maxSweeps {} hseal).after

/-- Whatever calls have been made, the world is sound. -/
theorem Initial.sound_of_calls (hn : natives.Inert) {w₀ : World σ} (h₀ : w₀.Initial)
    (h : Relation.ReflTransGen (Call natives) w₀ w) : w.Sound := by
  induction h with
  | refl => exact h₀.sound
  | tail _ hcall ih => exact ((hcall.later hn ih).settles hn ih).sound

/-- **Sealing is sound and cannot be undone.** Whatever calls have been made, final instances hold
values only, and refer to final instances only. Whatever steps follow, this holds on, and neither a
final instance nor a property or element that has its value changes. All calls are made up of such
steps. -/
theorem sealing_sound {w₀ w : World σ} (h₀ : w₀.Initial)
    (hcalls : Relation.ReflTransGen (Call .builtin) w₀ w) :
    w.heap.SealSound ∧
      (∀ w', w.Later .builtin w' → w'.heap.SealSound ∧ w.heap.Settles w'.heap) ∧
      ∀ w', Call .builtin w w' → w.Later .builtin w' := by
  have hn : (Natives.builtin : Natives σ).Inert := Natives.inert_builtin
  have hw := h₀.sound_of_calls hn hcalls
  refine ⟨hw.sealing, fun w' hlater => ?_, fun w' hcall => hcall.later hn hw⟩
  have hsettles := hlater.settles hn hw
  exact ⟨hsettles.sound.sealing, hsettles.toSettles⟩

end World

/-! ## An object that refers to itself -/

/-- A class whose instances refer to themselves. -/
def circle : ClassBody where
  properties := [⟨"self", .visible, .main, some (.this .main)⟩, ⟨"n", .visible, .int, some (.int 1)⟩]

namespace World

/-- The world of the class, before the first call. -/
def ofCircle : World Unit := .ofTypes (.ofClass circle) ()

/-- The world after an instance of the class has been asked for. -/
def withCircle : World Unit := (Effect.construct .builtin .main []).after ofCircle

/-- The world of the class is initial. -/
theorem initial_ofCircle : ofCircle.Initial := initial_ofTypes (by decide +kernel)

/-- The call that asks for an instance. -/
theorem call_withCircle : Call .builtin ofCircle withCircle := .instantiate fun e he => by cases he

/-- The instance is on the heap. -/
theorem has_withCircle : withCircle.heap.Has (.object ⟨0⟩) := by
  show 0 < withCircle.heap.instances.size
  decide +kernel

/-- The object is final once it has been evaluated, so that it holds nothing but values. -/
theorem sealing_sound_circle :
    let w := (Effect.run .builtin {} ⟨0⟩).after withCircle
    (w.heap.get ⟨0⟩).sealed = true ∧ ∀ e ∈ (w.heap.get ⟨0⟩).values, e.isTerminal = true := by
  have hsealed : (((Effect.run .builtin {} ⟨0⟩).after withCircle).heap.get ⟨0⟩).sealed = true := by
    decide +kernel
  have hsound := sealing_sound initial_ofCircle ((Relation.ReflTransGen.single call_withCircle).tail
    (.run {} has_withCircle))
  exact ⟨hsealed, fun e he => hsound.1.terminal hsealed he⟩

end World

end ObjectGraph
