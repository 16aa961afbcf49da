import Mathlib.Data.List.Nodup
import ObjectGraph.Proofs.Run.Limits
import ObjectGraph.Proofs.Run.SealOrder
import ObjectGraph.Proofs.Run.Calls

/-!
# Seal hooks run once

When an instance becomes final, the plugin of its type is told (`Plugin.onSeal`). Plugins may fail at
that, and a sealing pass ends at the first failure, so that some of the instances that it was to seal
are final afterwards and others are not. A history keeps the hooks that have run, in order, and the
instances that were there as final ones without a hook (`World.History`). In every history, the
instances of the first are distinct, and together with the others they are those that are final
(`World.hooks_once`). It takes no more for this than plugins that do not touch the marks of instances.

That a hook has run is more than a note in a history. What plugins that write down each call have
written down since the beginning are the hooks of the history that ran in a plugin, neither more nor
less, and in the same order.

Such plugins may answer with handles of instances that are not there. A hook that runs for such a
handle tells nothing about the instance that gets it later, and a history keeps these handles apart.
-/

namespace ObjectGraph

variable {σ : Type} {natives : Natives σ} {w w' : World σ}

/-! ## One pass -/

/-- A hook that has run. -/
structure SealHook where
  /-- The instance that the hook was for. -/
  id : InstanceId
  /-- Whether a plugin spoke for the type of the instance. Where none does, the hook is that of plain
  classes, which does nothing. -/
  inPlugin : Bool

/-- The instances that hooks were for. -/
def SealHook.ids (hooks : List SealHook) : List InstanceId := hooks.map (·.id)

/-- The instances of which plugins have been told. -/
def SealHook.told (hooks : List SealHook) : List InstanceId := ids (hooks.filter (·.inPlugin))

/-- Hooks that run after others. -/
@[simp] theorem SealHook.ids_append (hooks hooks' : List SealHook) :
    ids (hooks ++ hooks') = ids hooks ++ ids hooks' := List.map_append

/-- Plugins are told in the same order. -/
@[simp] theorem SealHook.told_append (hooks hooks' : List SealHook) :
    told (hooks ++ hooks') = told hooks ++ told hooks' := by
  rw [told, List.filter_append, ids_append, told, told]

namespace Effect

/-- The hook that runs when an instance is sealed. -/
def sealHook (natives : Natives σ) (id : InstanceId) (w : World σ) : SealHook :=
  ⟨id, natives.hasPlugin w.types (w.heap.get id).ty⟩

/-- The hooks that run when instances are sealed in order: those of all of them, or those up to the
first one that fails. -/
def sealHooks (natives : Natives σ) : List InstanceId → World σ → List SealHook
  | [], _ => []
  | id :: ids, w =>
    match sealOne natives id w with
    | .ok _ w' => sealHook natives id w :: sealHooks natives ids w'
    | .error _ _ => [sealHook natives id w]

/-- Hooks run in the given order. -/
theorem sealHooks_isPrefix (natives : Natives σ) (ids : List InstanceId) (w : World σ) :
    SealHook.ids (sealHooks natives ids w) <+: ids := by
  induction ids generalizing w with
  | nil => exact List.prefix_rfl
  | cons id ids ih =>
    rw [sealHooks]
    split
    · exact (List.prefix_cons_inj id).mpr (ih _)
    · exact (List.prefix_cons_inj id).mpr List.nil_prefix

/-- If the first of the instances has been sealed, the others follow. -/
theorem after_sealEach_cons {id : InstanceId} {w₁ : World σ} (hs : sealOne natives id w = .ok () w₁)
    (ids : List InstanceId) :
    (sealEach natives (id :: ids)).after w = (sealEach natives ids).after w₁ := by
  rw [Effect.after, sealEach, bind_of_ok hs, bind_apply, Effect.after]
  cases sealEach natives ids w₁ <;> rfl

/-- Sealing instances in order comes down to sealing those whose hooks run. -/
theorem after_sealEach (ids : List InstanceId) (w : World σ) :
    (sealEach natives ids).after w =
      (SealHook.ids (sealHooks natives ids w)).foldl (fun w id => (sealOne natives id).after w) w := by
  induction ids generalizing w with
  | nil => rfl
  | cons id ids ih =>
    rw [sealHooks]
    cases hs : sealOne natives id w with
    | error e w₁ =>
      have heach : sealEach natives (id :: ids) w = .error e w₁ := bind_of_error hs
      rw [after_of_error heach, ← after_of_error hs]
      rfl
    | ok _ w₁ => rw [after_sealEach_cons hs, ih, ← after_of_ok hs]; rfl

/-- A pass over discovered instances comes down to sealing those whose hooks run. -/
theorem after_sealDiscovered (ids : List InstanceId) (w : World σ) :
    (sealDiscovered natives ids).after w =
      (SealHook.ids (sealHooks natives (w.heap.sealingOrder ids) w)).foldl
        (fun w id => (sealOne natives id).after w) w :=
  after_sealEach (w.heap.sealingOrder ids) w

/-- Sealing one instance marks that instance and no other. -/
theorem marks_sealOne (hn : natives.Obeys .marks) (first : InstanceId) (w : World σ) :
    (w.heap.markSealed first).KeepsMarks ((sealOne natives first).after w).heap := by
  have hseal : Obeys .marks id ((natives.pluginFor w.types (w.heap.get first).ty).onSeal first) :=
    (hn.pluginFor w.types (w.heap.get first).ty).onSeal
  exact hseal.after { w with heap := w.heap.markSealed first }

/-- Sealing instances one after the other marks them and no others. -/
theorem marks_foldl (hn : natives.Obeys .marks) (ids : List InstanceId) (w : World σ)
    {id : InstanceId} (hid : w.heap.Has (.object id)) :
    let w' := ids.foldl (fun w id => (sealOne natives id).after w) w
    w'.heap.Has (.object id) ∧
      ((w'.heap.get id).sealed = true ↔ (w.heap.get id).sealed = true ∨ id ∈ ids) := by
  induction ids generalizing w with
  | nil => exact ⟨hid, by simp⟩
  | cons first ids ih =>
    have hone := marks_sealOne hn first w
    have hmarked : (w.heap.markSealed first).Has (.object id) :=
      (Heap.within_modifyInstance first _).has hid
    obtain ⟨hhas, hiff⟩ := ih ((sealOne natives first).after w) (hone.has hmarked)
    have hfirst := Heap.sealed_markAllSealed [first] hid
    rw [List.mem_singleton] at hfirst
    refine ⟨hhas, hiff.trans ?_⟩
    rw [hone.sealed hmarked, List.mem_cons, ← or_assoc]
    exact or_congr_left hfirst

end Effect

/-! ## Records -/

/-- Plugins that write down which instances they are told about, and nothing else. -/
structure Natives.Records (natives : Natives σ) (record : σ → List InstanceId) : Prop where
  /-- They write nothing down otherwise. -/
  answers : natives.AnswersWithin (.unrecorded record)
  /-- An instance is written down at the end, also if the hook fails. -/
  onSeal : ∀ entry ∈ natives.plugins, ∀ id (w : World σ),
    record ((entry.2.onSeal id).after w).host = record w.host ++ [id]

namespace Effect

variable {record : σ → List InstanceId}

/-- Sealing one instance writes it down if a plugin is told. -/
theorem recorded_sealOne (hn : natives.Records record) (id : InstanceId) (w : World σ) :
    record ((sealOne natives id).after w).host =
      record w.host ++ SealHook.told [sealHook natives id w] := by
  -- The plugin is looked for before it is told, and the mark is of no concern for that.
  show record (((natives.pluginFor w.types (w.heap.get id).ty).onSeal id).after
    { w with heap := w.heap.markSealed id }).host = _
  rw [SealHook.told, sealHook, Natives.hasPlugin, Natives.pluginFor]
  cases hfound : natives.nearest? w.types (w.heap.get id).ty with
  | none => exact (List.append_nil _).symm
  | some plugin =>
    obtain ⟨ty, hmem⟩ := Natives.mem_of_nearest? hfound
    exact hn.onSeal _ hmem id _

/-- What is written down when instances are sealed in order are those that plugins are told of. -/
theorem recorded_sealEach (hn : natives.Records record) (ids : List InstanceId) (w : World σ) :
    record ((sealEach natives ids).after w).host =
      record w.host ++ SealHook.told (sealHooks natives ids w) := by
  induction ids generalizing w with
  | nil => exact (List.append_nil _).symm
  | cons id ids ih =>
    have hone := recorded_sealOne hn id w
    rw [sealHooks]
    cases hs : sealOne natives id w with
    | error e w₁ =>
      have heach : sealEach natives (id :: ids) w = .error e w₁ := bind_of_error hs
      rw [after_of_error hs] at hone
      rw [after_of_error heach, hone]
    | ok _ w₁ =>
      rw [after_of_ok hs] at hone
      rw [after_sealEach_cons hs, ih, hone, List.append_assoc, ← SealHook.told_append]
      rfl

end Effect

/-! ## Steps -/

namespace World

/-- From the first world to the second, the given instances become final, and no others that were
there. -/
structure Marks (ids : List InstanceId) (w w' : World σ) : Prop where
  /-- Instances stay. -/
  has : ∀ {id : InstanceId}, w.heap.Has (.object id) → w'.heap.Has (.object id)
  /-- The instances are distinct. -/
  nodup : ids.Nodup
  /-- They were not final. -/
  unsealed : ∀ id ∈ ids, (w.heap.get id).sealed = false
  /-- They are final then. -/
  sealed : ∀ {id : InstanceId}, w.heap.Has (.object id) →
    ((w'.heap.get id).sealed = true ↔ (w.heap.get id).sealed = true ∨ id ∈ ids)

/-- Where marks are kept, no instance becomes final. -/
theorem marks_nil (h : w.heap.KeepsMarks w'.heap) : Marks [] w w' where
  has := h.has
  nodup := List.nodup_nil
  unsealed _ hid := by cases hid
  sealed hid := by rw [h.sealed hid, or_iff_left List.not_mem_nil]

/-- What a step of an evaluation does, with the hooks that run in it, in order. -/
inductive Acts (natives : Natives σ) (w : World σ) : List SealHook → World σ → Prop
  /-- An instance is built. -/
  | construct (cls : TypeId) (args : List Expr) :
    Acts natives w [] ((Effect.construct natives cls args).after w)
  /-- A cell gets a pass. -/
  | pass (c : Cell) : Acts natives w [] ((Effect.sweepCell natives c).after w)
  /-- What can be sealed among the given instances is sealed, from the end. -/
  | seals {ids : List InstanceId} (hids : ids.Nodup) :
    Acts natives w (Effect.sealHooks natives (w.heap.sealingOrder ids) w)
      ((Effect.sealDiscovered natives ids).after w)
  /-- Promises are run. -/
  | await (ids : List PromiseId) : Acts natives w [] ((Effect.onHeap (Heap.await ids)).after w)

/-- A step marks the instances whose hooks run in it, and no others. -/
theorem Acts.marks (hn : natives.Obeys .marks) {hooks : List SealHook}
    (h : Acts natives w hooks w') : Marks (SealHook.ids hooks) w w' := by
  cases h with
  | construct cls args => exact marks_nil ((Obeys.construct (L := .marks)).after w)
  | pass c => exact marks_nil ((Obeys.sweepCell hn.answersWithin Limits.allowsReads_marks c).after w)
  | await ids => exact marks_nil (.of_instances_eq (Heap.instances_await ids w.heap))
  | @seals ids hids =>
    have hfirst := Effect.sealHooks_isPrefix natives (w.heap.sealingOrder ids) w
    have hnodup : (w.heap.sealingOrder ids).Nodup := Heap.nodup_sealingOrder hids
    rw [Effect.after_sealDiscovered]
    exact {
      has := fun hid => (Effect.marks_foldl hn _ w hid).1
      nodup := hnodup.sublist hfirst.sublist
      -- What can be sealed is chosen before the first hook runs.
      unsealed := fun id hid =>
        Heap.unsealed_of_mem_sealable (Heap.mem_sealingOrder.mp (hfirst.subset hid))
      sealed := fun hid => (Effect.marks_foldl hn _ w hid).2 }

/-- What is written down in a step are the instances that plugins are told of in it. -/
theorem Acts.recorded {record : σ → List InstanceId} (hn : natives.Records record)
    {hooks : List SealHook} (h : Acts natives w hooks w') :
    record w'.host = record w.host ++ SealHook.told hooks := by
  have hsilent {w' : World σ} (h : record w'.host = record w.host) :
      record w'.host = record w.host ++ SealHook.told [] := h.trans (List.append_nil _).symm
  cases h with
  | construct cls args => exact hsilent ((Obeys.construct (L := .unrecorded record)).after w)
  | pass c =>
    have hreads := Limits.allowsReads_unrecorded record
    exact hsilent ((Obeys.sweepCell hn.answers hreads c).after w)
  | await ids => exact hsilent rfl
  | @seals ids hids => exact Effect.recorded_sealEach hn (w.heap.sealingOrder ids) w

/-! ## Histories -/

/-- A history: the hooks that have run since the first world, in order, the instances that were there
as final ones from the start or as soon as they were there at all, and the handles that have gone
astray, for which a hook has run when there was no instance yet. -/
inductive History (natives : Natives σ) (w₀ : World σ) :
    List SealHook → (InstanceId → Prop) → (InstanceId → Prop) → World σ → Prop
  /-- Nothing has happened yet. -/
  | start : History natives w₀ [] (fun id => (w₀.heap.get id).sealed = true) (fun _ => False) w₀
  /-- One more step. -/
  | act {hooks hooks' : List SealHook} {born stray : InstanceId → Prop} {w w' : World σ} :
    History natives w₀ hooks born stray w → Acts natives w hooks' w' →
    History natives w₀ (hooks ++ hooks')
      (fun id => born id ∨ ¬ w.heap.Has (.object id) ∧ (w'.heap.get id).sealed = true)
      (fun id => stray id ∨ ¬ w.heap.Has (.object id) ∧ id ∈ SealHook.ids hooks') w'

/-- In a history, hooks have run for the instances that have become final, and for each of them
once, unless its handle has gone astray. -/
structure Balanced (ids : List InstanceId) (born stray : InstanceId → Prop) (w : World σ) :
    Prop where
  /-- No hook has run twice. -/
  count_le : ∀ {id : InstanceId}, ¬ stray id → ids.count id ≤ 1
  /-- What was final from the start still is. -/
  wasBorn : ∀ {id : InstanceId}, born id → (w.heap.get id).sealed = true
  /-- All other final instances have become final, with their hooks. -/
  mem_iff : ∀ {id : InstanceId}, ¬ stray id →
    (id ∈ ids ↔ (w.heap.get id).sealed = true ∧ ¬ born id)

/-- A step keeps the balance. -/
theorem Balanced.act {ids ids' : List InstanceId} {born stray : InstanceId → Prop}
    (hb : Balanced ids born stray w) (hm : Marks ids' w w') :
    Balanced (ids ++ ids')
      (fun id => born id ∨ ¬ w.heap.Has (.object id) ∧ (w'.heap.get id).sealed = true)
      (fun id => stray id ∨ ¬ w.heap.Has (.object id) ∧ id ∈ ids') w' := by
  have hstays {id : InstanceId} (hsealed : (w.heap.get id).sealed = true) :
      (w'.heap.get id).sealed = true :=
    (hm.sealed (Heap.has_of_sealed hsealed)).mpr (.inl hsealed)
  -- What is marked now was not final before.
  have hopen {id : InstanceId} (hid : id ∈ ids') : ¬ (w.heap.get id).sealed = true :=
    Bool.eq_false_iff.mp (hm.unsealed id hid)
  refine ⟨fun {id} hstray => ?_, fun hborn => ?_, fun {id} hstray => ?_⟩
  · rw [not_or] at hstray
    rw [List.count_append]
    by_cases hid : id ∈ ids'
    · have hnone : ids.count id = 0 :=
        List.count_eq_zero.mpr fun hmem => hopen hid ((hb.mem_iff hstray.1).mp hmem).1
      have hone : ids'.count id ≤ 1 := List.nodup_iff_count_le_one.mp hm.nodup id
      omega
    · have hnone : ids'.count id = 0 := List.count_eq_zero.mpr hid
      have hone : ids.count id ≤ 1 := hb.count_le hstray.1
      omega
  · exact hborn.elim (fun h => hstays (hb.wasBorn h)) And.right
  · rw [not_or] at hstray
    rw [List.mem_append]
    constructor
    · rintro (hid | hid)
      · obtain ⟨hsealed, hborn⟩ := (hb.mem_iff hstray.1).mp hid
        exact ⟨hstays hsealed, fun h => h.elim hborn (·.1 (Heap.has_of_sealed hsealed))⟩
      · have hhas : w.heap.Has (.object id) :=
          Classical.byContradiction fun hnot => hstray.2 ⟨hnot, hid⟩
        refine ⟨(hm.sealed hhas).mpr (.inr hid), fun h => h.elim (fun hborn => ?_) (·.1 hhas)⟩
        exact hopen hid (hb.wasBorn hborn)
    · rintro ⟨hsealed, hborn⟩
      rw [not_or] at hborn
      -- The instance was there, since it would have been there as a final one otherwise.
      have hhas : w.heap.Has (.object id) :=
        Classical.byContradiction fun hnot => hborn.2 ⟨hnot, hsealed⟩
      exact ((hm.sealed hhas).mp hsealed).imp_left fun h => (hb.mem_iff hstray.1).mpr ⟨h, hborn.1⟩

variable {w₀ : World σ} {hooks : List SealHook} {born stray : InstanceId → Prop}

/-- Every history is balanced. -/
theorem History.balanced (hn : natives.Obeys .marks) (h : History natives w₀ hooks born stray w) :
    Balanced (SealHook.ids hooks) born stray w := by
  induction h with
  | start => exact ⟨fun _ => Nat.zero_le 1, fun h => h, fun _ => by simp [SealHook.ids]⟩
  | act _ hacts ih =>
    rw [SealHook.ids_append]
    exact ih.act (hacts.marks hn)

/-- The handles of instances that were there from the start do not go astray. -/
theorem History.not_stray (hn : natives.Obeys .marks) (h : History natives w₀ hooks born stray w)
    {id : InstanceId} (hid : w₀.heap.Has (.object id)) : w.heap.Has (.object id) ∧ ¬ stray id := by
  induction h with
  | start => exact ⟨hid, fun h => h⟩
  | act _ hacts ih =>
    obtain ⟨hhas, hstray⟩ := ih
    exact ⟨(hacts.marks hn).has hhas, fun h => h.elim hstray (·.1 hhas)⟩

/-- What is written down in a history are the instances that plugins have been told of in it. -/
theorem History.recorded {record : σ → List InstanceId} (hn : natives.Records record)
    (h : History natives w₀ hooks born stray w) :
    record w.host = record w₀.host ++ SealHook.told hooks := by
  induction h with
  | start => exact (List.append_nil _).symm
  | act _ hacts ih =>
    rw [hacts.recorded hn, ih, List.append_assoc, SealHook.told_append]

/-- Steps continue a history. -/
theorem History.extend (h : History natives w₀ hooks born stray w)
    (hacts : Relation.ReflTransGen (fun w w' => ∃ hooks, Acts natives w hooks w') w w') :
    ∃ hooks born stray, History natives w₀ hooks born stray w' := by
  induction hacts with
  | refl => exact ⟨hooks, born, stray, h⟩
  | tail _ hstep ih =>
    obtain ⟨hooks, born, stray, h⟩ := ih
    obtain ⟨hooks', hacts⟩ := hstep
    exact ⟨_, _, _, h.act hacts⟩

/-! ## Calls -/

/-- A call takes steps, whatever the plugins do. -/
theorem Call.acts (h : Call natives w w') :
    Relation.ReflTransGen (fun w w' => ∃ hooks, Acts natives w hooks w') w w' := by
  cases h with
  | @instantiate cls args _ => exact .single ⟨[], .construct cls args⟩
  | @run settings root _ =>
    exact (Takes.runFrom (fun _ c => ⟨[], .pass c⟩) (fun _ ids => ⟨[], .await ids⟩) settings.order
      settings.maxSweeps {} fun w₁ _ _ _ => ⟨_, .seals (w₁.heap.nodup_discover root)⟩).after

/-- **Seal hooks run once.** Whatever calls are made, whether they fail or not, they make a history.
In every history each instance's hook has run at most once, and exactly once if and only if the
instance is final and was not there as a final one from the start. The one exception are instances
for whose handle a hook has run before they were there, which cannot be if they were there when the
history began. If the plugins write down what they are told, then what they have written down is what
the history says that they have been told: every hook of it but those of plain classes, which do
nothing. The plugins may fail at any time, but must not touch the marks of instances themselves. -/
theorem hooks_once (hn : natives.Obeys .marks)
    (hcalls : Relation.ReflTransGen (Call natives) w₀ w) :
    (∃ hooks born stray, History natives w₀ hooks born stray w) ∧
      ∀ hooks born stray, History natives w₀ hooks born stray w →
        (∀ id, ¬ stray id → (SealHook.ids hooks).count id ≤ 1 ∧
          ((SealHook.ids hooks).count id = 1 ↔ (w.heap.get id).sealed = true ∧ ¬ born id)) ∧
        (∀ id, w₀.heap.Has (.object id) → ¬ stray id) ∧
        ∀ record : σ → List InstanceId, natives.Records record →
          record w.host = record w₀.host ++ SealHook.told hooks := by
  refine ⟨?_, fun hooks born stray h => ⟨fun id hstray => ?_, fun id hid => ?_, fun _ hr => ?_⟩⟩
  · induction hcalls with
    | refl => exact ⟨_, _, _, .start⟩
    | tail _ hcall ih =>
      obtain ⟨hooks, born, stray, h⟩ := ih
      exact h.extend hcall.acts
  · have hb := h.balanced hn
    have hcount : (SealHook.ids hooks).count id ≤ 1 := hb.count_le hstray
    have hmem : (SealHook.ids hooks).count id = 1 ↔ id ∈ SealHook.ids hooks := by
      rw [← List.count_pos_iff]
      omega
    exact ⟨hcount, hmem.trans (hb.mem_iff hstray)⟩
  · exact (h.not_stray hn hid).2
  · exact h.recorded hr

end World

/-! ## A hook that fails -/

/-- A plugin for every class that writes down what is sealed, and fails for one instance. -/
def Natives.failingAt (id : InstanceId) : Natives (List InstanceId) where
  plugins := [(.any, { onSeal := fun i w =>
    let w' := { w with host := w.host ++ [i] }
    if i = id then .error (.invalidPayload "any" "test") w' else .ok () w' })]
  hooks := []

/-- The plugin does not touch marks. -/
theorem Natives.obeys_failingAt (id : InstanceId) : (failingAt id).Obeys .marks where
  plugins entry hentry := by
    obtain rfl := List.mem_singleton.mp hentry
    refine ⟨Plugin.answersWithin_of_onSeal _, fun {i} w => ?_⟩
    have hsame : w.heap.KeepsMarks w.heap := .of_instances_eq rfl
    by_cases hi : i = id
    · exact Ends.of_error (if_pos hi) ⟨hsame, trivial⟩
    · exact Ends.of_ok (if_neg hi) hsame
  hooks hook hhook := by cases hhook

/-- The plugin writes down what it is told. -/
theorem Natives.records_failingAt (id : InstanceId) : (failingAt id).Records fun host => host where
  answers := by
    refine ⟨fun entry hentry => ?_, fun hook hhook => by cases hhook⟩
    obtain rfl := List.mem_singleton.mp hentry
    exact Plugin.answersWithin_of_onSeal _
  onSeal entry hentry i w := by
    obtain rfl := List.mem_singleton.mp hentry
    refine Ends.after (P := fun w' => w'.host = w.host ++ [i]) ?_
    by_cases hi : i = id
    · exact Ends.of_error (if_pos hi) rfl
    · exact Ends.of_ok (if_neg hi) rfl

namespace World

/-- The shared part and the objects that refer to it, after two evaluations the first of which fails
at the second object. -/
def sharedTwice : World (List InstanceId) :=
  (Effect.run (.failingAt ⟨1⟩) {} ⟨2⟩).after ((Effect.run (.failingAt ⟨1⟩) {} ⟨2⟩).after shared)

/-- The hook that fails has run in the first evaluation, and the others in the second. -/
theorem hooks_once_shared :
    ((Effect.run (.failingAt ⟨1⟩) {} ⟨2⟩).after shared).host = [⟨1⟩] ∧
      ∀ hooks born stray, History (.failingAt ⟨1⟩) shared hooks born stray sharedTwice →
        SealHook.told hooks = [⟨1⟩, ⟨0⟩, ⟨2⟩] ∧
        ∀ id, shared.heap.Has (.object id) → (SealHook.ids hooks).count id ≤ 1 ∧
          ((SealHook.ids hooks).count id = 1 ↔
            (sharedTwice.heap.get id).sealed = true ∧ ¬ born id) := by
  have hroot (w : World (List InstanceId)) (h : w.heap.instances.size = 3) :
      w.heap.Has (.object ⟨2⟩) := by
    rw [Heap.Has, h]
    decide
  have hfirst : Call (.failingAt ⟨1⟩) shared ((Effect.run (.failingAt ⟨1⟩) {} ⟨2⟩).after shared) :=
    .run {} (hroot _ rfl)
  have hsecond : Call (.failingAt ⟨1⟩) _ sharedTwice := .run {} (hroot _ (by decide +kernel))
  have hhost : sharedTwice.host = [⟨1⟩, ⟨0⟩, ⟨2⟩] := by decide +kernel
  refine ⟨by decide +kernel, fun hooks born stray h => ?_⟩
  obtain ⟨honce, hstray, hrecord⟩ := (hooks_once (Natives.obeys_failingAt ⟨1⟩)
    ((Relation.ReflTransGen.single hfirst).tail hsecond)).2 hooks born stray h
  have htold : sharedTwice.host = SealHook.told hooks := hrecord _ (Natives.records_failingAt ⟨1⟩)
  exact ⟨htold.symm.trans hhost, fun id hid => honce id (hstray id hid)⟩

end World

end ObjectGraph
