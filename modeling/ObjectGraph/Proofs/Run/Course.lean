import Mathlib.Data.List.Basic
import ObjectGraph.Proofs.Run.Standstill

/-!
# The course of an evaluation

What an evaluation reports is a list of sweeps and a number of batches. `Effect.Course` says what
there is to report: which sweeps have been taken, in which worlds, and where promises were awaited
in between. A batch comes only after a sweep that did nothing, and after such a sweep nothing but
a batch or the end, so a course has one idle sweep for each batch, and one more while it rests
(`Effect.Course.countP_isIdle`). An evaluation, however it ends, has gone through a course within
its ceiling, and reports that course (`Effect.run_course`). The plugins may be any, and so may the
world, with one reservation. An evaluation walks along the parents of types and of scopes. Where these
run in a loop, a walk has no end, and what stands for it here is cut (`Registry.lineage`,
`Heap.chain`). Of worlds with such a loop nothing is said.

The counter that a driver keeps beside the list of sweeps is the length of the list
(`Effect.driveFrom_eq`).
-/

namespace ObjectGraph

variable {σ : Type} {natives : Natives σ} {order : SweepOrder} {root : InstanceId}
variable {w w' w₁ : World σ}

/-- A sweep that made no reduction and sealed nothing. -/
def SweepCost.IsIdle (cost : SweepCost) : Prop := cost.reductions = 0 ∧ cost.sealed = 0

instance : DecidablePred SweepCost.IsIdle := fun _ => inferInstanceAs (Decidable (_ ∧ _))

/-- A sweep is idle if it is not productive. -/
theorem SweepCost.isIdle_iff {cost : SweepCost} : cost.IsIdle ↔ cost.isProductive = false := by
  simp [IsIdle, isProductive]

namespace Effect

/-- The sweeps taken in order and the number of batches awaited between them, from a world to a
world. The course rests if its last sweep was idle and no batch has been awaited since. -/
inductive Course (natives : Natives σ) (order : SweepOrder) (root : InstanceId) (w : World σ) :
    List SweepCost → ℕ → Bool → World σ → Prop
  /-- Nothing has been done. -/
  | start : Course natives order root w [] 0 false w
  /-- One more sweep. -/
  | sweep {costs : List SweepCost} {batches : ℕ} {w₁ w₂ : World σ} {cost : SweepCost}
    (before : Course natives order root w costs batches false w₁)
    (taken : Effect.sweep natives order root w₁ = .ok cost w₂) :
    Course natives order root w (costs ++ [cost]) batches (!cost.isProductive) w₂
  /-- One more batch, of all promises that wait. -/
  | await {costs : List SweepCost} {batches : ℕ} {w₁ : World σ} {ids : List PromiseId}
    (before : Course natives order root w costs batches true w₁)
    (pending : waiting root w₁ = .ok ids w₁) (some_wait : ids ≠ []) :
    Course natives order root w costs (batches + 1) false
      { w₁ with heap := (w₁.heap.await ids).2 }

namespace Course

variable {costs : List SweepCost} {batches : ℕ} {resting : Bool}

/-- A course has one idle sweep for each batch, and one more if it rests. -/
theorem countP_isIdle (h : Course natives order root w costs batches resting w') :
    costs.countP (·.IsIdle) = batches + resting.toNat := by
  induction h with
  | start => rfl
  | @sweep costs batches w₁ w₂ cost before taken ih =>
    rw [List.countP_append, ih, List.countP_singleton]
    cases hcost : cost.isProductive <;> simp [SweepCost.isIdle_iff, hcost]
  | await before pending some_wait ih => exact ih

/-- The last sweep of a course that rests was idle. -/
theorem last_isIdle (h : Course natives order root w costs batches true w') :
    ∃ cost ∈ costs.getLast?, cost.IsIdle := by
  generalize hr : true = rests at h
  cases h with
  | start => cases hr
  | @sweep costs batches w₁ w₂ cost before taken =>
    refine ⟨cost, by simp, SweepCost.isIdle_iff.mpr ?_⟩
    simpa using hr.symm
  | await => cases hr

end Course

/-- How an evaluation succeeds: it rests where no promise waits and the root is final, and reports
the course that it has gone through. -/
structure Completes (natives : Natives σ) (settings : Settings) (root : InstanceId) (w : World σ)
    (stats : RunStats) (w' : World σ) : Prop where
  /-- The sweeps and batches reported are those that have been made. -/
  course : Course natives settings.order root w stats.sweeps stats.batches true w'
  /-- The ceiling is kept. -/
  sweeps_le : stats.sweeps.length ≤ settings.maxSweeps
  /-- One sweep more than there are batches was idle. -/
  idle : stats.sweeps.countP (·.IsIdle) = stats.batches + 1
  /-- The last sweep was idle. -/
  last : ∃ cost ∈ stats.sweeps.getLast?, cost.IsIdle
  /-- No promise waits. -/
  none_waits : waiting root w' = .ok [] w'
  /-- The root is final. -/
  sealed : (w'.heap.get root).sealed = true

/-- How an evaluation fails, and with which error, after the course that it has gone through. -/
inductive Aborts (natives : Natives σ) (settings : Settings) (root : InstanceId) (w : World σ) :
    EvalError → World σ → Prop
  /-- The sweeps allowed have been taken. -/
  | exhausted {costs : List SweepCost} {batches : ℕ} {w' : World σ}
    (course : Course natives settings.order root w costs batches false w')
    (ceiling : costs.length = settings.maxSweeps) :
    Aborts natives settings root w (.nonTermination costs.length) w'
  /-- It rests where no promise waits, and the root is not final. -/
  | stalled {costs : List SweepCost} {batches : ℕ} {w' : World σ}
    (course : Course natives settings.order root w costs batches true w')
    (sweeps_le : costs.length ≤ settings.maxSweeps) (none_waits : waiting root w' = .ok [] w')
    (unsealed : (w'.heap.get root).sealed = false) :
    Aborts natives settings root w (.nonTermination costs.length) w'
  /-- The next sweep fails. Unless a plugin does so, it does not fail with the verdict. -/
  | failed {costs : List SweepCost} {batches : ℕ} {w₁ w' : World σ} {e : EvalError}
    (course : Course natives settings.order root w costs batches false w₁)
    (sweeps_lt : costs.length < settings.maxSweeps)
    (fails : sweep natives settings.order root w₁ = .error e w')
    (no_verdict : natives.Obeys .noVerdict → e.isVerdict = false) :
    Aborts natives settings root w e w'

/-- Where plugins leave the verdict to the evaluation, its number is that of the sweeps taken. -/
theorem Aborts.course_of_verdict {settings : Settings} {n : ℕ} (hv : natives.Obeys .noVerdict)
    (h : Aborts natives settings root w (.nonTermination n) w') :
    n ≤ settings.maxSweeps ∧ ∃ costs batches resting,
      Course natives settings.order root w costs batches resting w' ∧ costs.length = n := by
  generalize he : EvalError.nonTermination n = e at h
  cases h with
  | exhausted course ceiling =>
    cases he
    exact ⟨Nat.le_of_eq ceiling, _, _, _, course, rfl⟩
  | stalled course sweeps_le none_waits unsealed =>
    cases he
    exact ⟨sweeps_le, _, _, _, course, rfl⟩
  | failed course sweeps_lt fails no_verdict =>
    have hnone := no_verdict hv
    rw [← he] at hnone
    cases hnone

/-- An evaluation that has gone through a course and is allowed `left` sweeps more. -/
theorem ends_runFrom_course {settings : Settings} {left : ℕ} {stats : RunStats}
    (hcourse : Course natives settings.order root w stats.sweeps stats.batches false w₁)
    (hleft : stats.sweeps.length + left = settings.maxSweeps) :
    Ends (runFrom natives settings.order root left stats) w₁
      (Completes natives settings root w) (Aborts natives settings root w) := by
  induction left generalizing stats w₁ with
  | zero => exact Ends.of_error rfl (.exhausted hcourse hleft)
  | succ left ih =>
    have hlength (cost : SweepCost) :
        (stats.sweeps ++ [cost]).length + left = settings.maxSweeps := by
      rw [List.length_append, List.length_singleton]
      omega
    rw [runFrom]
    refine Ends.bind ?_
    cases hs : sweep natives settings.order root w₁ with
    | error e w₂ =>
      -- A sweep does not give the verdict by itself, only a plugin that it asks could.
      refine Ends.of_error hs (.failed hcourse (by omega) hs fun hv => ?_)
      have hnone := Obeys.sweep hv Limits.allowsReads_noVerdict (fun _ _ => trivial) settings.order
        root w₁
      exact (hnone.error hs).2
    | ok cost w₂ =>
      have hnext := hcourse.sweep hs
      refine Ends.of_ok hs ?_
      dsimp only
      split
      case isTrue hproductive =>
        rw [hproductive] at hnext
        refine ih ?_ (hlength cost)
        exact hnext
      case isFalse hidle =>
        -- The course rests, and comes to its end or goes on with a batch.
        rw [Bool.eq_false_iff.mpr hidle] at hnext
        refine Ends.bind (Ends.of_ok (read_apply _ w₂) ?_)
        split
        case h_1 hnone =>
          have hnone : waiting root w₂ = .ok [] w₂ := congrArg (EStateM.Result.ok · w₂) hnone
          refine Ends.bind (Ends.of_ok rfl ?_)
          split
          case isTrue hroot =>
            refine Ends.of_ok rfl ⟨hnext, ?_, hnext.countP_isIdle, hnext.last_isIdle, hnone, hroot⟩
            exact Nat.le.intro (hlength cost)
          case isFalse hroot =>
            exact Ends.of_error rfl
              (.stalled hnext (Nat.le.intro (hlength cost)) hnone (Bool.eq_false_iff.mpr hroot))
        case h_2 ids hsome =>
          refine Ends.bind (Ends.of_ok rfl ?_)
          refine ih ?_ (hlength cost)
          exact hnext.await rfl hsome

/-! ## A counter beside the list -/

/-- The work done, with a counter of the sweeps. -/
structure Tally where
  /-- How many sweeps have been taken. -/
  swept : ℕ
  /-- The sweeps and the number of batches. -/
  stats : RunStats

/-- The tally of an evaluation. -/
def Tally.of (stats : RunStats) : Tally := ⟨stats.sweeps.length, stats⟩

/-- Sweeps until nothing is left to do, or until the counter has come to the ceiling. -/
def driveFrom (natives : Natives σ) (order : SweepOrder) (root : InstanceId) (ceiling : ℕ)
    (tally : Tally) : Effect σ Tally :=
  if ceiling ≤ tally.swept then throw (.nonTermination tally.swept)
  else do
    let cost ← sweep natives order root
    let stats := { tally.stats with sweeps := tally.stats.sweeps ++ [cost] }
    if cost.isProductive then driveFrom natives order root ceiling ⟨tally.swept + 1, stats⟩
    else
      match ← waiting root with
      | [] =>
        if (← instanceOf root).sealed then return ⟨tally.swept + 1, stats⟩
        else throw (.nonTermination (tally.swept + 1))
      | ids =>
        let _ ← onHeap (Heap.await ids)
        driveFrom natives order root ceiling
          ⟨tally.swept + 1, { stats with batches := stats.batches + 1 }⟩
termination_by ceiling - tally.swept

/-- A driver that counts its sweeps up to the ceiling does the same as one that counts down those
that are left, and its counter is the length of the list. -/
theorem driveFrom_eq (natives : Natives σ) (order : SweepOrder) (root : InstanceId) (left : ℕ)
    (stats : RunStats) :
    driveFrom natives order root (stats.sweeps.length + left) (.of stats) =
      runFrom natives order root left stats >>= fun stats => pure (.of stats) := by
  induction left generalizing stats with
  | zero =>
    have hspent : stats.sweeps.length + 0 ≤ (Tally.of stats).swept := Nat.le_refl _
    rw [driveFrom, if_pos hspent]
    rfl
  | succ left ih =>
    -- What comes after a sweep, whether or not a batch is awaited in between.
    have hnext (cost : SweepCost) (batches : ℕ) :
        driveFrom natives order root (stats.sweeps.length + (left + 1))
            ⟨stats.sweeps.length + 1, ⟨stats.sweeps ++ [cost], batches⟩⟩ =
          runFrom natives order root left ⟨stats.sweeps ++ [cost], batches⟩ >>=
            fun stats => pure (.of stats) := by
      rw [← ih, Tally.of, List.length_append, List.length_singleton, Nat.add_assoc, Nat.add_comm 1]
    rw [driveFrom, if_neg (by simp [Tally.of]), runFrom, bind_assoc]
    refine bind_congr fun cost => ?_
    dsimp only [Tally.of]
    split
    case isTrue => exact hnext cost stats.batches
    case isFalse =>
      rw [bind_assoc]
      refine bind_congr fun ids => ?_
      cases ids with
      | nil =>
        rw [bind_assoc]
        refine bind_congr fun i => ?_
        split
        · rw [pure_bind, List.length_append, List.length_singleton]
        · rw [List.length_append, List.length_singleton]
          rfl
      | cons id ids =>
        rw [bind_assoc]
        exact bind_congr fun _ => hnext cost (stats.batches + 1)

/-- **An evaluation keeps its ceiling and reports what it has done.** With whatever plugins and
settings, it ends in every world in which the parents of types and of scopes do not run in a loop.
If it succeeds, it has taken the sweeps and awaited the batches that it reports, no more sweeps than
allowed; one more of them than there are batches was idle, the last one among these, and the root is
final. If it fails, it has done so after a course within the ceiling; and the verdict that it does not
terminate, which is its own unless a plugin gives it, comes with the number of the sweeps taken. With
a counter instead of the list's length it does the same. -/
theorem run_course (natives : Natives σ) (settings : Settings) (root : InstanceId) (w : World σ) :
    Ends (run natives settings root) w
      (Completes natives settings root w) (Aborts natives settings root w) ∧
    (natives.Obeys .noVerdict → ∀ n w',
      run natives settings root w = .error (.nonTermination n) w' →
      n ≤ settings.maxSweeps ∧ ∃ costs batches resting,
        Course natives settings.order root w costs batches resting w' ∧ costs.length = n) ∧
    driveFrom natives settings.order root settings.maxSweeps (.of {}) =
      run natives settings root >>= fun stats => pure (.of stats) := by
  have hends : Ends (run natives settings root) w
      (Completes natives settings root w) (Aborts natives settings root w) :=
    ends_runFrom_course .start (Nat.zero_add _)
  refine ⟨hends, fun hv n w' hn => ?_, ?_⟩
  · unfold Ends at hends
    rw [hn] at hends
    exact hends.course_of_verdict hv
  · have heq := driveFrom_eq natives settings.order root settings.maxSweeps {}
    rwa [show ([] : List SweepCost).length + settings.maxSweeps = settings.maxSweeps from
      Nat.zero_add _] at heq

/-- The evaluation of two properties that wait for each other fails after three sweeps, as it
says. -/
theorem run_course_knot :
    ∃ w' costs batches resting, run .builtin {} ⟨0⟩ World.withKnot = .error (.nonTermination 3) w' ∧
      Course .builtin .declared ⟨0⟩ World.withKnot costs batches resting w' ∧ costs.length = 3 := by
  have hverdict : decide (Ends (run .builtin {} ⟨0⟩) World.withKnot (fun _ _ => False)
      fun e _ => e = .nonTermination 3) = true := by
    decide +kernel
  generalize World.withKnot = w at hverdict ⊢
  obtain ⟨_, w', hrun, rfl⟩ := (of_decide_eq_true hverdict).exists_error
  obtain ⟨-, hreport, -⟩ := run_course .builtin {} ⟨0⟩ w
  obtain ⟨-, costs, batches, resting, hcourse, hlength⟩ := hreport Natives.obeys_builtin 3 w' hrun
  exact ⟨w', costs, batches, resting, hrun, hcourse, hlength⟩

end Effect

end ObjectGraph
