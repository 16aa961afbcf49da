import ObjectGraph.Proofs.Heap.Promises
import ObjectGraph.Proofs.Heap.Sealing
import ObjectGraph.Proofs.Run.Pass

/-!
# Steps of an evaluation

Whatever a host asks for comes down to four kinds of steps: an instance is built, a cell gets a
pass, discovered instances are sealed, or a batch of promises is run (`World.Step`). Every step
keeps what holds of final instances and leaves them as they are (`Step.settles`): passes, batches
and construction because they continue the world, the writing of a cell because the cell is not
terminal, sealing because what is sealed together is supported. Steps may fail, in which case they
leave a world too (`Effect.after`).
-/

namespace ObjectGraph

variable {σ α β : Type} {natives : Natives σ} {w w' w'' : World σ}

namespace World

/-- No handle dangles, and final instances are complete. -/
structure Sound (w : World σ) : Prop extends w.Grounded where
  /-- Final instances hold values only, and refer to final instances only. -/
  sealing : w.heap.SealSound

/-- The second world is sound, has whatever the first one has, and what is final in the first one
is the same in the second. -/
structure Settles (w w' : World σ) : Prop extends w.heap.Within w'.heap,
    w.heap.Settles w'.heap where
  /-- It is sound. -/
  sound : w'.Sound

namespace Settles

/-- Nothing has changed. -/
theorem refl (hw : w.Sound) : w.Settles w := ⟨.refl, .refl, hw⟩

/-- What stays the same twice stays the same. -/
theorem trans (a : w.Settles w') (b : w'.Settles w'') : w.Settles w'' :=
  ⟨a.toWithin.trans b.toWithin, a.toSettles.trans b.toSettles, b.sound⟩

end Settles

/-- What continues a sound world settles it. -/
theorem Continues.settles (hc : w.Continues w') (hw : w.Sound) : w.Settles w' :=
  ⟨hc.toWithin, Heap.settles_of_kept hc.kept, hc.grounded, hw.sealing.of_kept hc.kept
    fun hid => hc.fresh (Nat.le_of_not_lt hid)⟩

end World

/-- A step that is known to continue a world does so whether it fails or not. -/
theorem Keeps.after {step : Effect σ α} {yields : α → World σ → Prop}
    (h : Keeps id step w yields) : w.Continues (step.after w) :=
  Moves.after h

/-! ## Promise batches -/

namespace Heap

variable {h h' h'' : Heap}

/-- The second heap differs from the first one in the states of promises alone, and no handle in it
dangles. -/
structure Awaits (h h' : Heap) : Prop extends h.Within h' where
  /-- No handle dangles. -/
  grounded : h'.Grounded
  /-- The instances are the same. -/
  same : h'.instances = h.instances

namespace Awaits

/-- Nothing has changed. -/
theorem refl (hg : h.Grounded) : h.Awaits h := ⟨.refl, hg, rfl⟩

/-- Changes to promises compose. -/
theorem trans (a : h.Awaits h') (b : h'.Awaits h'') : h.Awaits h'' :=
  ⟨a.toWithin.trans b.toWithin, b.grounded, b.same.trans a.same⟩

/-- A promise may be put into a state in which it mentions what is on the heap. -/
theorem setPromise (hg : h.Grounded) {id : PromiseId} {p : Promise} (hp : h.CoversPromise p) :
    h.Awaits (h.setPromise id p) :=
  ⟨within_setPromise id p, hg.setPromise id hp, rfl⟩

/-- Starting tasks. What their outcomes mention is on the heap. -/
theorem start (ids : List PromiseId) (hg : h.Grounded) :
    h.Awaits (Heap.start ids h).2 ∧
      ∀ task ∈ (Heap.start ids h).1, h.CoversOutcome task.outcome := by
  induction ids generalizing h with
  | nil => exact ⟨.refl hg, fun task ht => by cases ht⟩
  | cons id ids ih =>
    have hpromise := hg.promise id
    simp only [Heap.start]
    split
    · rename_i ty outcome heq
      rw [heq] at hpromise
      have hset : h.Awaits (h.setPromise id (.inFlight ty)) := .setPromise hg trivial
      obtain ⟨hrest, htasks⟩ := ih hset.grounded
      refine ⟨hset.trans hrest, List.forall_mem_cons.mpr ⟨hpromise, fun task ht => ?_⟩⟩
      -- Covering an outcome is a matter of what is on the heap, which is the same.
      have hback : (h.setPromise id (.inFlight ty)).Within h :=
        ⟨Nat.le_refl _, Nat.le_refl _, by simp [Heap.setPromise]⟩
      exact hback.coversOutcome (htasks task ht)
    · exact ih hg

/-- Recording the result of a task. -/
theorem record (hg : h.Grounded) {task : Task} (ht : h.CoversOutcome task.outcome) :
    h.Awaits (h.record task) := by
  unfold Heap.record
  split
  · rename_i value heq
    rw [heq] at ht
    exact .setPromise hg ht
  · exact .setPromise hg trivial
  · exact .refl hg

/-- Recording the loss of a task. -/
theorem recordLost (hg : h.Grounded) (task : Task) : h.Awaits (h.recordLost task) := by
  unfold Heap.recordLost
  split
  · exact .setPromise hg trivial
  · exact .refl hg

/-- Recording something about each task. -/
theorem foldl {record : Heap → Task → Heap} (tasks : List Task) (hg : h.Grounded)
    (hrecord : ∀ {h' : Heap}, h.Awaits h' → ∀ task ∈ tasks, h'.Awaits (record h' task)) :
    h.Awaits (tasks.foldl record h) := by
  induction tasks generalizing h with
  | nil => exact .refl hg
  | cons task tasks ih =>
    have hfirst := hrecord (.refl hg) task List.mem_cons_self
    exact hfirst.trans (ih hfirst.grounded fun ha task ht =>
      hrecord (hfirst.trans ha) task (List.mem_cons_of_mem _ ht))

/-- Running a batch. -/
theorem await (ids : List PromiseId) (hg : h.Grounded) : h.Awaits (Heap.await ids h).2 := by
  obtain ⟨hstart, htasks⟩ := start ids hg
  refine hstart.trans ?_
  -- The results come in first, and what has been lost is recorded last.
  have hrecord : (Heap.start ids h).2.Awaits
      ((Heap.start ids h).1.foldl Heap.record (Heap.start ids h).2) :=
    foldl _ hstart.grounded fun ha task ht => .record ha.grounded
      ((hstart.trans ha).toWithin.coversOutcome (htasks task ht))
  exact hrecord.trans (foldl _ hrecord.grounded fun ha task _ => .recordLost ha.grounded task)

end Awaits

end Heap

namespace Effect

/-! ## Passes -/

/-- A pass continues the world. -/
theorem keeps_pass (hn : natives.Inert) (hw : w.Grounded) {e : Expr} (he : w.heap.Covers e) :
    Keeps id (pass natives none e) w fun result w' => w'.heap.Covers result.1 :=
  ends_pass (e.rewrites hn none (s := ⟨w, 0⟩) hw (fun s heq => by cases heq) he)

/-- What a pass over a cell leaves is a continuation of the world, into which the result has been
written unless the cell holds its value or the pass fails. -/
theorem after_sweepCell (hn : natives.Inert) (hw : w.Grounded) {c : Cell} {P : World σ → Prop}
    (kept : ∀ w₁, w.Continues w₁ → P w₁)
    (written : ∀ e next w₁, w.heap.read? c = some e → e.isTerminal = false → w.Continues w₁ →
      w₁.heap.Covers next → P { w₁ with heap := w₁.heap.write c next }) :
    P ((sweepCell natives c).after w) := by
  have hsame : P w := kept w (.refl hw)
  refine Ends.after (Ends.bind (Ends.of_ok rfl ?_))
  split
  case h_1 => exact Ends.of_ok rfl hsame
  case h_2 e hread =>
    split
    case isTrue => exact Ends.of_ok rfl hsame
    case isFalse hpending =>
      exact Ends.bind (Ends.mono (keeps_pass hn hw (hw.heap.cell hread))
        (fun result w₁ ⟨hc, hnext⟩ => Ends.of_ok rfl
          (written e result.1 w₁ hread (Bool.eq_false_iff.mpr hpending) hc hnext))
        fun _ w₁ hc => kept w₁ hc)

/-- A pass over a cell changes nothing final. -/
theorem settles_sweepCell (hn : natives.Inert) (hw : w.Sound) (c : Cell) :
    w.Settles ((sweepCell natives c).after w) := by
  refine after_sweepCell hn hw.toGrounded (fun w₁ hc => hc.settles hw)
    fun e next w₁ hread hpending hc hnext => ?_
  -- The pass may have assigned to the cell if it is a binding, but not otherwise.
  have hopen : w₁.heap.Open c := Heap.open_of_kept hread hpending hc.kept
  have hsettles := World.Continues.settles hc hw
  have hwithin := Heap.within_write (h := w₁.heap) c next
  have hsound := hsettles.sound
  exact hsettles.trans ⟨hwithin, hsound.sealing.settles_write hopen _,
    ⟨hsound.heap.write c hnext, fun ty e he => hwithin.covers (hsound.definitions ty e he)⟩,
    hsound.sealing.write hopen _⟩

/-! ## Sealing -/

/-- Sealing one instance marks it. -/
theorem sealOne_eq_markSealed (hn : natives.Inert) (id : InstanceId) (w : World σ) :
    sealOne natives id w = .ok () { w with heap := w.heap.markSealed id } :=
  (hn.pluginFor _ _).onSeal

/-- Sealing instances in order marks them. -/
theorem sealEach_eq_markAllSealed (hn : natives.Inert) (ids : List InstanceId) (w : World σ) :
    sealEach natives ids w = .ok ids.length { w with heap := w.heap.markAllSealed ids } := by
  induction ids generalizing w with
  | nil => rfl
  | cons id ids ih =>
    rw [sealEach, bind_of_ok (sealOne_eq_markSealed hn id w), bind_of_ok (ih _)]
    rfl

/-- Sealing discovered instances changes nothing final. -/
theorem settles_sealDiscovered (hn : natives.Inert) (hw : w.Sound) {ids : List InstanceId}
    (hids : ∀ id ∈ ids, w.heap.Has (.object id)) :
    w.Settles ((sealDiscovered natives ids).after w) := by
  refine Ends.after (P := w.Settles) (Ends.bind (Ends.of_ok rfl
    (Ends.of_ok (sealEach_eq_markAllSealed hn _ _) ?_)))
  generalize hchosen : ids.reverse.filter (w.heap.sealable ids).contains = chosen
  have hmem {id : InstanceId} : id ∈ chosen ↔ id ∈ w.heap.sealable ids := by
    rw [← hchosen, List.mem_filter, List.mem_reverse, List.contains_iff_mem]
    exact and_iff_right_of_imp fun hid => (Heap.mem_sealable hid).1
  have hwithin := Heap.within_markAllSealed chosen w.heap
  refine ⟨hwithin, Heap.settles_markAllSealed chosen w.heap, ⟨hw.heap.markAllSealed chosen,
    fun ty e he => hwithin.covers (hw.definitions ty e he)⟩, ?_⟩
  refine hw.sealing.markAllSealed (fun id hid => ?_) (fun id hid => ?_) fun id hid e he r href => ?_
  · exact hids id (Heap.mem_sealable (hmem.mp hid)).1
  · exact (Heap.mem_sealable (hmem.mp hid)).2.1
  · exact ((Heap.mem_sealable (hmem.mp hid)).2.2 e he r href).imp_right hmem.mpr

end Effect

/-! ## Steps -/

namespace World

/-- A step that a call takes. -/
inductive Step (natives : Natives σ) (w : World σ) : World σ → Prop
  /-- An instance is built from arguments of the heap. -/
  | construct {cls : TypeId} {args : List Expr} (hargs : ∀ e ∈ args, w.heap.Covers e) :
    Step natives w ((Effect.construct natives cls args).after w)
  /-- A cell gets a pass. -/
  | pass (c : Cell) : Step natives w ((Effect.sweepCell natives c).after w)
  /-- What can be sealed among instances of the heap is sealed. -/
  | seals {ids : List InstanceId} (hids : ∀ id ∈ ids, w.heap.Has (.object id)) :
    Step natives w ((Effect.sealDiscovered natives ids).after w)
  /-- Promises are run. -/
  | await (ids : List PromiseId) :
    Step natives w ((Effect.onHeap (Heap.await ids)).after w)

/-- The second world comes after the first one. -/
def Later (natives : Natives σ) : World σ → World σ → Prop := Relation.ReflTransGen (Step natives)

/-- **A step changes nothing final**, and what it makes final is complete. -/
theorem Step.settles (hn : natives.Inert) (hw : w.Sound) (h : Step natives w w') :
    w.Settles w' := by
  cases h with
  | construct hargs => exact (Keeps.construct natives hw.toGrounded hargs).after.settles hw
  | pass c => exact Effect.settles_sweepCell hn hw c
  | seals hids => exact Effect.settles_sealDiscovered hn hw hids
  | await ids =>
    have hawait := Heap.Awaits.await ids hw.heap
    have hnests : w.heap.NestsIn (Heap.await ids w.heap).2 := .of_parents_eq fun s => by
      rw [Heap.scope, Heap.scope, Heap.scopes_await]
    exact (continues_of_instances_eq hw.toGrounded hawait.grounded hawait.toWithin hawait.same
      hnests).settles hw

/-- Steps one after the other change nothing final. -/
theorem Later.settles (hn : natives.Inert) (hw : w.Sound) (h : Later natives w w') :
    w.Settles w' := by
  induction h with
  | refl => exact .refl hw
  | tail _ hstep ih => exact ih.trans (hstep.settles hn ih.sound)

end World

end ObjectGraph
