import ObjectGraph.Proofs.Run.Rounds

/-!
# Interrupted evaluations

An evaluation that runs out of sweeps leaves the world in the middle, and asking for it again goes on
from there. Nothing is lost by that: what comes out in the end is what one evaluation with all of the
sweeps would have come to (`Effect.run_resumed`). A round does not depend on the rounds before it but
for the statistics (`Resumes.round`), and where an evaluation was cut, the rounds of the second part
are the ones that the first would have taken next. If it was not cut but had come to a standstill,
then both come to the same verdict, although after different numbers of sweeps.
-/

namespace ObjectGraph

variable {σ α : Type} {natives : Natives σ} {order : SweepOrder} {root : InstanceId}
variable {w w' : World σ}

/-- The work of two parts of an evaluation together. -/
def RunStats.followedBy (earlier later : RunStats) : RunStats where
  sweeps := earlier.sweeps ++ later.sweeps
  batches := earlier.batches + later.batches

/-- The outcome of the rest of an evaluation agrees with that of the whole: there is the same world
at the end, with answers that are related, or with the same error. Only the number of sweeps in a
verdict may be another one. -/
inductive Resumes (related : α → α → Prop) :
    EStateM.Result EvalError (World σ) α → EStateM.Result EvalError (World σ) α → Prop
  /-- Both succeed. -/
  | done {a b : α} (h : related a b) (w : World σ) : Resumes related (.ok a w) (.ok b w)
  /-- Both come to the verdict. -/
  | verdict (n m : ℕ) (w : World σ) :
    Resumes related (.error (.nonTermination n) w) (.error (.nonTermination m) w)
  /-- Both fail. -/
  | fault (e : EvalError) (w : World σ) : Resumes related (.error e w) (.error e w)

namespace Resumes

/-- What is said of the answers can be weakened. -/
theorem mono {related related' : α → α → Prop} {part whole : EStateM.Result EvalError (World σ) α}
    (h : Resumes related part whole) (himp : ∀ a b, related a b → related' a b) :
    Resumes related' part whole := by
  cases h with
  | done hab w => exact .done (himp _ _ hab) w
  | verdict n m w => exact .verdict n m w
  | fault e w => exact .fault e w

/-- A round is the same after others. -/
theorem round (natives : Natives σ) (order : SweepOrder) (root : InstanceId)
    (earlier stats : RunStats) (w : World σ) :
    Resumes (fun part whole => whole.1 = part.1 ∧ whole.2 = earlier.followedBy part.2)
      (Effect.round natives order root stats w)
      (Effect.round natives order root (earlier.followedBy stats) w) := by
  have hsweeps (cost : SweepCost) : (earlier.followedBy stats).sweeps ++ [cost] =
      earlier.sweeps ++ (stats.sweeps ++ [cost]) := List.append_assoc ..
  simp only [Effect.round, bind_apply, hsweeps]
  -- The statistics are only added to: neither the sweep nor the batch looks at them.
  cases Effect.sweep natives order root w with
  | error e w₁ => exact .fault e w₁
  | ok cost w₁ =>
    dsimp only
    cases cost.isProductive with
    | true => exact .done ⟨rfl, rfl⟩ w₁
    | false =>
      simp only [Bool.false_eq_true, if_false, bind_apply]
      cases Effect.waiting root w₁ with
      | error e w₂ => exact .fault e w₂
      | ok ids w₂ =>
        cases ids with
        | nil =>
          simp only [bind_of_ok (Effect.instanceOf_apply root w₂)]
          cases (w₂.heap.get root).sealed with
          | true => exact .done ⟨rfl, rfl⟩ w₂
          | false => exact .verdict _ _ w₂
        | cons id ids => exact .done ⟨rfl, rfl⟩ _

/-- Rounds are the same after others. -/
theorem runFrom (earlier : RunStats) (left : ℕ) (stats : RunStats) (w : World σ) :
    Resumes (fun part whole => whole = earlier.followedBy part)
      (Effect.runFrom natives order root left stats w)
      (Effect.runFrom natives order root left (earlier.followedBy stats) w) := by
  induction left generalizing stats w with
  | zero => exact .verdict _ _ w
  | succ left ih =>
    rw [Effect.runFrom_succ, Effect.runFrom_succ, bind_apply, bind_apply]
    have hround := round natives order root earlier stats w
    generalize Effect.round natives order root stats w = part at hround ⊢
    generalize Effect.round natives order root (earlier.followedBy stats) w = whole at hround ⊢
    cases hround with
    | @done part whole h w₁ =>
      -- Both go on, or neither does, and they have the same number of sweeps left.
      obtain ⟨goesOn, stats₁⟩ := part
      obtain ⟨hgoesOn, hstats⟩ := h
      dsimp only at hgoesOn hstats ⊢
      rw [hgoesOn, hstats]
      cases goesOn with
      | true => exact ih stats₁ w₁
      | false => exact .done (a := stats₁) (b := earlier.followedBy stats₁) rfl w₁
    | verdict n m w₁ => exact .verdict n m w₁
    | fault e w₁ => exact .fault e w₁

end Resumes

namespace Effect

/-- At a standstill, every evaluation comes to the verdict and leaves the world as it is. -/
theorem Standstill.run (h : Standstill natives root w) (settings : Settings) :
    ∃ n, Effect.run natives settings root w = .error (.nonTermination n) w := by
  rw [Effect.run]
  cases settings.maxSweeps with
  | zero => exact ⟨0, rfl⟩
  | succ left => exact ⟨1, by rw [runFrom_succ, bind_of_error (h.round {})]; rfl⟩

/-- **An interrupted evaluation resumes exactly.** If an evaluation ends with the verdict that it
does not terminate, then evaluating once more comes to the same world and to the same success or the
same error as one evaluation that was allowed the sweeps of both together. If it succeeds, then the
work of the whole is that of the two parts, and the sweeps of the first part are as many as the
verdict says. The plugins must be able to wait, and leave the verdict to the evaluation. -/
theorem run_resumed (hn : natives.Patient) (hv : natives.Obeys .noVerdict) {m₁ n : ℕ}
    (h : run natives ⟨m₁, order⟩ root w = .error (.nonTermination n) w') (m₂ : ℕ) :
    Resumes (fun part whole => ∃ earlier : RunStats,
        earlier.sweeps.length = n ∧ whole = earlier.followedBy part)
      (run natives ⟨m₂, order⟩ root w') (run natives ⟨m₁ + m₂, order⟩ root w) := by
  rcases verdict_cases hn hv h with ⟨earlier, hcount, -, hon⟩ | ⟨hstill, hon⟩
  · -- The sweeps have run out: the whole goes on with the rounds of the second part.
    have hwhole : run natives ⟨m₁ + m₂, order⟩ root w =
        runFrom natives order root m₂ (earlier.followedBy {}) w' := by
      rw [run, hon, RunStats.followedBy, List.append_nil, Nat.add_zero]
    rw [hwhole]
    exact (Resumes.runFrom earlier m₂ {} w').mono fun part whole heq => ⟨earlier, hcount, heq⟩
  · obtain ⟨m, hpart⟩ := hstill.run (⟨m₂, order⟩ : Settings)
    have hwhole : run natives ⟨m₁ + m₂, order⟩ root w = .error (.nonTermination n) w' := hon m₂
    rw [hpart, hwhole]
    exact .verdict m n w'

/-- The evaluation of the object that refers to itself needs two sweeps. With one it is interrupted,
and the next one completes it. -/
theorem run_resumed_circle : ∃ w, run .builtin ⟨1, .declared⟩ ⟨0⟩ World.withCircle =
      .error (.nonTermination 1) w ∧
    ∃ part whole w', run .builtin ⟨1, .declared⟩ ⟨0⟩ w = .ok part w' ∧
      run .builtin ⟨2, .declared⟩ ⟨0⟩ World.withCircle = .ok whole w' ∧
      whole.sweeps.length = 1 + part.sweeps.length := by
  have hcut : Ends (run .builtin ⟨1, .declared⟩ ⟨0⟩) World.withCircle (fun _ _ => False)
      fun e w => e = .nonTermination 1 ∧
        Ends (run .builtin ⟨1, .declared⟩ ⟨0⟩) w (fun _ _ => True) fun _ _ => False := by
    decide +kernel
  generalize World.withCircle = w₀ at hcut ⊢
  unfold Ends at hcut
  cases hrun : run .builtin ⟨1, .declared⟩ ⟨0⟩ w₀ with
  | ok stats w => rw [hrun] at hcut; exact hcut.elim
  | error e w =>
    rw [hrun] at hcut
    obtain ⟨rfl, hrest⟩ := hcut
    have hresumed := run_resumed Natives.patient_builtin Natives.obeys_builtin hrun 1
    refine ⟨w, rfl, ?_⟩
    generalize run .builtin ⟨1, .declared⟩ ⟨0⟩ w = part at hrest hresumed ⊢
    generalize run .builtin ⟨1 + 1, .declared⟩ ⟨0⟩ w₀ = whole at hresumed ⊢
    cases hresumed with
    | @done part whole h w' =>
      obtain ⟨earlier, hcount, rfl⟩ := h
      exact ⟨part, _, w', rfl, rfl, by rw [← hcount]; exact List.length_append⟩
    | verdict => exact hrest.elim
    | fault => exact hrest.elim

end Effect

end ObjectGraph
