import ObjectGraph.Proofs.Run.FixedPoint
import ObjectGraph.Proofs.Run.Limits

/-!
# Rounds

An evaluation goes in rounds: a sweep, and if that did nothing, a batch of the promises that wait
(`Effect.round`). It ends with the verdict that it does not terminate in one of two ways, and the
verdict does not say in which (`Effect.verdict_cases`): the sweeps that it was allowed have run out,
and with more of them it would go on from where it is, or it has come to a standstill, which no
further sweep changes (`Effect.Standstill`).

The verdict is the evaluation's own. Plugins may fail, but with other errors
(`Natives.Obeys Limits.noVerdict`).
-/

namespace ObjectGraph

variable {σ : Type} {natives : Natives σ} {order : SweepOrder} {root : InstanceId}
variable {w w' : World σ}

namespace Effect

/-- A sweep, and a batch of promises if the sweep did nothing. Answers whether the evaluation goes
on, and the work done so far. -/
def round (natives : Natives σ) (order : SweepOrder) (root : InstanceId) (stats : RunStats) :
    Effect σ (Bool × RunStats) := do
  let cost ← sweep natives order root
  let stats := { stats with sweeps := stats.sweeps ++ [cost] }
  if cost.isProductive then return (true, stats)
  else
    match ← waiting root with
    | [] =>
      if (← instanceOf root).sealed then return (false, stats)
      else throw (.nonTermination stats.sweeps.length)
    | ids =>
      let _ ← onHeap (Heap.await ids)
      return (true, { stats with batches := stats.batches + 1 })

/-- With sweeps left, an evaluation takes a round and goes on unless that was the last. -/
theorem runFrom_succ (natives : Natives σ) (order : SweepOrder) (root : InstanceId) (left : ℕ)
    (stats : RunStats) (w : World σ) :
    runFrom natives order root (left + 1) stats w =
      (round natives order root stats >>= fun (goesOn, stats) =>
        if goesOn then runFrom natives order root left stats else pure stats) w := by
  rw [runFrom, round, bind_assoc, bind_apply, bind_apply]
  cases sweep natives order root w with
  | error e w₁ => rfl
  | ok cost w₁ =>
    dsimp only
    split
    case isTrue => rfl
    case isFalse =>
      rw [bind_assoc, bind_apply, bind_apply]
      cases waiting root w₁ with
      | error e w₂ => rfl
      | ok ids w₂ =>
        cases ids with
        | nil =>
          dsimp only
          rw [bind_assoc, bind_of_ok (instanceOf_apply root w₂),
            bind_of_ok (instanceOf_apply root w₂)]
          split <;> rfl
        | cons id ids => rfl

/-! ## Standstills -/

/-- A standstill: a sweep in whichever order does nothing, no promise waits, and still the root is
not final. -/
structure Standstill (natives : Natives σ) (root : InstanceId) (w : World σ) : Prop where
  /-- A sweep does nothing. -/
  idle : ∃ cost : SweepCost, cost.isProductive = false ∧
    ∀ order, sweep natives order root w = .ok cost w
  /-- No promise waits. -/
  noneWaits : waiting root w = .ok [] w
  /-- The root is not final. -/
  unsealed : (w.heap.get root).sealed = false

/-- At a standstill, a round comes to the verdict and leaves the world as it is. -/
theorem Standstill.round (h : Standstill natives root w) (stats : RunStats) :
    Effect.round natives order root stats w =
      .error (.nonTermination (stats.sweeps.length + 1)) w := by
  obtain ⟨cost, hcost, hidle⟩ := h.idle
  rw [Effect.round, bind_of_ok (hidle order)]
  dsimp only
  rw [hcost, if_neg Bool.false_ne_true, bind_of_ok h.noneWaits]
  dsimp only
  rw [bind_of_ok (instanceOf_apply root w), h.unsealed, if_neg Bool.false_ne_true,
    List.length_append]
  rfl

variable (hn : natives.Patient) (hv : natives.Obeys .noVerdict)
include hn hv

/-- A round adds one sweep to the count. It comes to the verdict at a standstill only. -/
theorem ends_round (order : SweepOrder) (root : InstanceId) (stats : RunStats) (w : World σ) :
    Ends (round natives order root stats) w
      (fun result _ => result.2.sweeps.length = stats.sweeps.length + 1)
      fun e w' => ∀ n, e = .nonTermination n → Standstill natives root w' := by
  have hsweep := Obeys.sweep hv Limits.allowsReads_noVerdict (fun _ _ => trivial) order root w
  refine Ends.bind (hsweep.and_eq.mono (fun cost w₁ hcost => ?_) fun e w₁ he n heq => ?_)
  · dsimp only
    split
    case isTrue => exact Ends.of_ok rfl List.length_append
    case isFalse hidle =>
      have hidle : cost.isProductive = false := Bool.eq_false_iff.mpr hidle
      refine Ends.bind (Ends.of_ok rfl ?_)
      split
      case h_1 hnone =>
        refine Ends.bind (Ends.of_ok rfl ?_)
        split
        case isTrue => exact Ends.of_ok rfl List.length_append
        case isFalse hroot =>
          refine Ends.of_error rfl fun _ _ => ⟨⟨cost, hidle, ?_⟩, ?_, Bool.eq_false_iff.mpr hroot⟩
          · have hboth : cost.reductions = 0 ∧ cost.sealed = 0 := by
              simpa [SweepCost.isProductive] using hidle
            obtain ⟨rfl, hagain⟩ := idle_of_sweep hn hcost.1 hboth.1 hboth.2
            exact hagain
          · exact congrArg (EStateM.Result.ok · w₁) hnone
      case h_2 => exact Ends.bind (Ends.of_ok rfl (Ends.of_ok rfl List.length_append))
  · -- A sweep fails with other errors.
    rw [heq] at he
    cases he.2

/-- **How an evaluation comes to the verdict.** Either the sweeps that were left have run out, and
with more of them the evaluation goes on from the world and the count that it has left, or it has
come to a standstill, and ends there with any number of sweeps more. -/
theorem verdict_cases {left n : ℕ} {stats : RunStats}
    (h : runFrom natives order root left stats w = .error (.nonTermination n) w') :
    (∃ stats', stats'.sweeps.length = n ∧ n = stats.sweeps.length + left ∧
      ∀ more, runFrom natives order root (left + more) stats w =
        runFrom natives order root more stats' w') ∨
    (Standstill natives root w' ∧
      ∀ more, runFrom natives order root (left + more) stats w =
        .error (.nonTermination n) w') := by
  induction left generalizing stats w with
  | zero =>
    cases h
    refine .inl ⟨stats, rfl, rfl, fun more => ?_⟩
    rw [Nat.zero_add]
  | succ left ih =>
    -- Whatever is left after the round, the round is the same.
    have hmore (more : ℕ) : runFrom natives order root (left + 1 + more) stats w =
        (round natives order root stats >>= fun (goesOn, stats) =>
          if goesOn then runFrom natives order root (left + more) stats else pure stats) w := by
      rw [Nat.add_right_comm, runFrom_succ]
    have hround := ends_round hn hv order root stats w
    unfold Ends at hround
    rw [runFrom_succ, bind_apply] at h
    cases hs : round natives order root stats w with
    | error e w₁ =>
      rw [hs] at h hround
      cases h
      refine .inr ⟨hround n rfl, fun more => ?_⟩
      rw [hmore, bind_of_error hs]
    | ok result w₁ =>
      obtain ⟨goesOn, stats₁⟩ := result
      rw [hs] at h hround
      cases goesOn with
      | false => cases h
      | true =>
        have hagain (more : ℕ) : runFrom natives order root (left + 1 + more) stats w =
            runFrom natives order root (left + more) stats₁ w₁ := by
          rw [hmore, bind_of_ok hs]
          rfl
        rcases ih h with ⟨stats', hcount, hn, hon⟩ | ⟨hstill, hon⟩
        · refine .inl ⟨stats', hcount, ?_, fun more => (hagain more).trans (hon more)⟩
          dsimp only at hround
          omega
        · exact .inr ⟨hstill, fun more => (hagain more).trans (hon more)⟩

end Effect

end ObjectGraph
