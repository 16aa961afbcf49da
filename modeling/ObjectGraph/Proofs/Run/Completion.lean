import ObjectGraph.Proofs.Output.Outline
import ObjectGraph.Proofs.Run.Calls

/-!
# Complete graphs

An evaluation that succeeds has found its root final. Since whatever a final instance refers to is
final as well, the whole graph below the root is complete (`World.Complete`): rendering it meets
values only, so that it can fail only at an instance inside of itself, and there is nothing left to
evaluate, since discovery passes over the root. Final instances stay as they are, so that the graph
stays complete whatever steps follow (`World.complete_of_run`).
-/

namespace ObjectGraph

variable {σ α β : Type} {natives : Natives σ} {w w' : World σ} {root : InstanceId}

/-! ## Rendering -/

namespace Rendering

/-- The outcome is a rendering, or the report of an instance inside of itself. -/
def FailsAtCycles (outcome : Except EvalError α) : Prop :=
  ∀ error, outcome = .error error → ∃ path, error = .cycle path

namespace FailsAtCycles

/-- A rendering. -/
theorem ok {a : α} : FailsAtCycles (.ok a : Except EvalError α) := fun _ h => by cases h

/-- The report of an instance inside of itself. -/
theorem cycle {path : String} {a : α} :
    FailsAtCycles (replaceOr .strict .cycle path a) :=
  fun _ h => ⟨shown path, (Except.error.inj h).symm⟩

/-- The rule for sequences. -/
theorem bind {outcome : Except EvalError α} {next : α → Except EvalError β}
    (h : FailsAtCycles outcome) (hnext : ∀ a, FailsAtCycles (next a)) :
    FailsAtCycles (outcome >>= next) := by
  cases outcome with
  | ok a => exact hnext a
  | error e => exact fun error herror => h error (congrArg _ (Except.error.inj herror))

/-- The rule for what is made of a rendering. -/
theorem map {outcome : Except EvalError α} (h : FailsAtCycles outcome) (f : α → β) :
    FailsAtCycles (outcome.map f) := by
  cases outcome with
  | ok a => exact ok
  | error e => exact fun error herror => h error (congrArg _ (Except.error.inj herror))

end FailsAtCycles

/-- What rendering an instance goes on to are some of its values. -/
theorem mem_values_of_mem_parts {id : InstanceId} {part : String × Expr} (h : part ∈ w.parts id) :
    part.2 ∈ (w.heap.get id).values := by
  have hslots {slots : List Slot} (hmem : part ∈ (slots.filter (isShown w.types)).map
      fun slot => (slot.name, slot.expr)) : part.2 ∈ slots.map (·.expr) := by
    obtain ⟨slot, hslot, rfl⟩ := List.mem_map.mp hmem
    exact List.mem_map.mpr ⟨slot, (List.mem_filter.mp hslot).1, rfl⟩
  unfold World.parts at h
  rw [Instance.values]
  split at h
  · cases h
  · cases h
  · rename_i elements hp
    rw [hp]
    exact List.mem_append_right _ (World.mem_of_mem_elementParts h)
  · exact List.mem_append_left _ (hslots h)
  · exact List.mem_append_left _ (hslots h)

/-- Rendering a value of a final instance comes down to a value's own rendering, if it is an
instance, and that is final again. -/
theorem value_cases (hs : w.heap.SealSound) {id : InstanceId}
    (hid : (w.heap.get id).sealed = true) {e : Expr} (he : e ∈ (w.heap.get id).values) :
    (∃ r, e = .object r ∧ (w.heap.get r).sealed = true) ∨ (∃ ty, e = .missing ty) ∨
      (∃ m, e = .unbound m) ∨ ∃ m r, e = .function m r := by
  have hterminal := hs.terminal hid he
  cases e with
  | object r => exact .inl ⟨r, rfl, hs.referent hid he rfl⟩
  | missing ty => exact .inr (.inl ⟨ty, rfl⟩)
  | unbound m => exact .inr (.inr (.inl ⟨m, rfl⟩))
  | function m r => exact .inr (.inr (.inr ⟨m, r, rfl⟩))
  | _ => cases hterminal

end Rendering

open Rendering

/-- The outlines of parts, if each part has one. -/
theorem Outline.failsAtCycles_ofParts {render : String → Expr → Except EvalError Outline}
    {path : String} {parts : List (String × Expr)}
    (h : ∀ part ∈ parts, ∀ path, FailsAtCycles (render path part.2)) :
    FailsAtCycles (ofParts render path parts) := by
  induction parts with
  | nil => exact .ok
  | cons part parts ih =>
    obtain ⟨hpart, hparts⟩ := List.forall_mem_cons.mp h
    exact (hpart _).bind fun outline => (ih hparts).bind fun rest => .ok

/-- The outline of a final instance. -/
theorem World.failsAtCycles_outline (hs : w.heap.SealSound) (around : List InstanceId)
    (path : String) (id : InstanceId) (hid : (w.heap.get id).sealed = true) :
    FailsAtCycles (w.outline .strict around path id) := by
  induction around, path, id using World.outline.induct w with
  | case1 around path id hin =>
    rw [outline_of_inside hin]
    exact .cycle
  | case2 around path id hin hplaced ih =>
    rw [outline_of_outside (Bool.eq_false_iff.mpr hin)]
    refine (Outline.failsAtCycles_ofParts fun part hpart path => ?_).map (w.assemble id)
    -- A value is an instance that is final again, or has an outline of its own.
    obtain ⟨segment, e⟩ := part
    have he : e ∈ (w.heap.get id).values := mem_values_of_mem_parts hpart
    rcases value_cases hs hid he with ⟨r, rfl, hr⟩ | ⟨ty, rfl⟩ | ⟨m, rfl⟩ | ⟨m, r, rfl⟩
    · exact ih path r hr
    · exact .ok
    · exact .ok
    · exact .ok
  | case3 around path id hin hplaced =>
    rw [outline, if_neg hin, if_neg hplaced]
    exact .ok

/-! ## Evaluating again -/

/-- Below a final instance there is nothing to find. -/
theorem Heap.discover_of_sealed {h : Heap} (hroot : (h.get root).sealed = true) :
    h.discover root = h.nothingFound := by
  have hvisit : h.visitAll [.object root] h.nothingFound = (h.nothingFound, []) := by
    rw [visitAll, visit, hroot, Bool.true_or, if_pos rfl]
    rfl
  rw [discover, discoverWithin_cons, hvisit]
  generalize h.scopes.size + h.instances.size + h.promises.size = fuel
  cases fuel <;> rfl

namespace Effect

/-- A sweep below a final instance finds nothing and changes nothing. -/
theorem sweep_of_sealed (order : SweepOrder) (hroot : (w.heap.get root).sealed = true) :
    sweep natives order root w = .ok ⟨0, 0, 0, 0⟩ w := by
  unfold sweep
  rw [bind_of_ok (read_apply _ w), Heap.discover_of_sealed hroot]
  cases order <;> rfl

/-- Below a final instance no promise waits. -/
theorem waiting_of_sealed (hroot : (w.heap.get root).sealed = true) :
    waiting root w = .ok [] w := by
  rw [waiting, read_apply, Heap.discover_of_sealed hroot]
  rfl

/-- Rounds below a final instance end with a sweep that does nothing. -/
theorem runFrom_of_sealed (order : SweepOrder) (left : ℕ) (stats : RunStats)
    (hroot : (w.heap.get root).sealed = true) :
    runFrom natives order root (left + 1) stats w =
      .ok { stats with sweeps := stats.sweeps ++ [⟨0, 0, 0, 0⟩] } w := by
  rw [runFrom, bind_of_ok (sweep_of_sealed order hroot)]
  dsimp only
  rw [if_neg (by decide), bind_of_ok (waiting_of_sealed hroot)]
  dsimp only
  rw [bind_of_ok (instanceOf_apply root w), if_pos hroot]
  rfl

/-- Evaluating what is below a final instance takes one sweep that does nothing. -/
theorem run_of_sealed {settings : Settings} (hsettings : 0 < settings.maxSweeps)
    (hroot : (w.heap.get root).sealed = true) :
    run natives settings root w = .ok { sweeps := [⟨0, 0, 0, 0⟩] } w := by
  obtain ⟨left, hleft⟩ := Nat.exists_eq_succ_of_ne_zero (Nat.pos_iff_ne_zero.mp hsettings)
  rw [run, hleft]
  exact runFrom_of_sealed settings.order left {} hroot

/-- Nothing is known of what the step ends with. -/
theorem ends_trivial (step : Effect σ α) (w : World σ) :
    Ends step w (fun _ _ => True) fun _ _ => True := by
  unfold Ends
  split <;> trivial

/-- An evaluation with a given number of sweeps left ends well only with a final root. -/
theorem ends_runFrom_sealed (order : SweepOrder) (left : ℕ) (stats : RunStats) (w : World σ) :
    Ends (runFrom natives order root left stats) w
      (fun _ w' => (w'.heap.get root).sealed = true) fun _ _ => True := by
  induction left generalizing stats w with
  | zero => exact Ends.of_error rfl trivial
  | succ left ih =>
    refine Ends.bind ((ends_trivial _ w).mono (fun cost w₁ _ => ?_) fun _ _ h => h)
    dsimp only
    split
    · exact ih _ w₁
    · refine Ends.bind (Ends.of_ok rfl ?_)
      split
      · refine Ends.bind (Ends.of_ok (instanceOf_apply root w₁) ?_)
        split
        case isTrue hs => exact Ends.of_ok rfl hs
        case isFalse => exact Ends.of_error rfl trivial
      · exact Ends.bind (Ends.of_ok rfl (ih _ _))

/-- An evaluation that succeeds was allowed a sweep, and has found its root final. -/
theorem sealed_of_run {settings : Settings} {stats : RunStats}
    (hrun : run natives settings root w = .ok stats w') :
    0 < settings.maxSweeps ∧ (w'.heap.get root).sealed = true := by
  refine ⟨Nat.pos_of_ne_zero fun hzero => ?_, (ends_runFrom_sealed _ _ _ w).ok hrun⟩
  rw [run, hzero] at hrun
  cases hrun

end Effect

/-! ## Completeness -/

namespace World

/-- The graph below an instance is complete: the instance is final, its strict renderings can fail
only at an instance inside of itself, and evaluating it again does nothing. -/
structure Complete (natives : Natives σ) (root : InstanceId) (w : World σ) : Prop where
  /-- The instance is final. -/
  sealed : (w.heap.get root).sealed = true
  /-- The JSON form. -/
  json : ∀ error, w.toJson .strict root = .error error → ∃ path, error = .cycle path
  /-- The text form. -/
  text : ∀ error, w.toText .strict root = .error error → ∃ path, error = .cycle path
  /-- Evaluation takes one sweep, which finds nothing, and leaves the world as it is. -/
  rerun : ∀ settings : Settings, 0 < settings.maxSweeps →
    Effect.run natives settings root w = .ok { sweeps := [⟨0, 0, 0, 0⟩], batches := 0 } w

/-- The graph below a final instance is complete. -/
theorem Sound.complete (hw : w.Sound) (hroot : (w.heap.get root).sealed = true) :
    w.Complete natives root where
  sealed := hroot
  json error herror :=
    failsAtCycles_outline hw.sealing [] "" root hroot error (toJson_eq_error_iff.mp herror)
  text error herror :=
    failsAtCycles_outline hw.sealing [] "" root hroot error (toText_eq_error_iff.mp herror)
  rerun _ hsettings := Effect.run_of_sealed hsettings hroot

/-- **Success means a complete graph.** If the evaluation of a root succeeds, whatever calls were
made before, then the graph below it is complete, and stays so whatever steps follow. The settings
of the evaluation are among those with which it can be done again. -/
theorem complete_of_run {w₀ : World σ} (h₀ : w₀.Initial)
    (hcalls : Relation.ReflTransGen (Call .builtin) w₀ w) (hroot : w.heap.Has (.object root))
    {settings : Settings} {stats : RunStats}
    (hrun : Effect.run .builtin settings root w = .ok stats w') :
    0 < settings.maxSweeps ∧
      ∀ w'', w'.Later .builtin w'' → w''.Complete .builtin root := by
  have hn : (Natives.builtin : Natives σ).Inert := Natives.inert_builtin
  obtain ⟨hsettings, hsealed⟩ := Effect.sealed_of_run hrun
  -- The evaluation is one more call, and leaves a sound world like those before it.
  have hcall : Call .builtin w w' := by
    have hafter : (Effect.run .builtin settings root).after w = w' := by
      rw [Effect.after, hrun]
    exact hafter ▸ .run settings hroot
  have hw' := h₀.sound_of_calls hn (hcalls.tail hcall)
  refine ⟨hsettings, fun w'' hlater => ?_⟩
  have hsettles := hlater.settles hn hw'
  refine hsettles.sound.complete ?_
  rw [hsettles.sealed hsealed]
  exact hsealed

/-- The evaluation of the object that refers to itself succeeds, and the graph is complete. -/
theorem complete_of_run_circle :
    ∃ stats w, Effect.run .builtin {} ⟨0⟩ withCircle = .ok stats w ∧ Complete .builtin ⟨0⟩ w := by
  have hok : (match Effect.run .builtin {} ⟨0⟩ withCircle with
      | .ok _ _ => true
      | .error _ _ => false) = true := by
    decide +kernel
  cases hrun : Effect.run .builtin {} ⟨0⟩ withCircle with
  | ok stats w =>
    have hcomplete := complete_of_run initial_ofCircle (.single call_withCircle) has_withCircle hrun
    exact ⟨stats, w, rfl, hcomplete.2 w .refl⟩
  | error e w =>
    rw [hrun] at hok
    cases hok

end World

end ObjectGraph
