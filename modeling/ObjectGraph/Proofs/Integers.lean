import Mathlib.Algebra.Group.Int.Defs
import Mathlib.Data.Int.Order.Basic
import ObjectGraph.Proofs.Formula.Scalars
import ObjectGraph.Types.Builtin

/-!
# Integer operators are exact

Integers have 64 bits, and their operators mean those of whole numbers. An operation ends in one of
three ways. `/` and `%` refuse the divisor zero. What is left overflows if a whole number is out of
range, and gives the literal of the exact result otherwise (`Exact`). The number that decides is the
result itself, but for `%`, which has none where the quotient has none
(`Plugin.integer_operators_exact`).

A remainder is smaller than the divisor and needs no check of its own (`Integer.inRange_tmod`).
Quotients are in range but for one, that of the least integer by `-1`
(`Integer.not_inRange_tdiv_iff`).
-/

namespace ObjectGraph

/-! ## Whole numbers of 64 bits -/

namespace Integer

variable {a b : Int64} {m n : ℤ}

/-- The whole number has 64 bits, one of which is for its sign. -/
def InRange (n : ℤ) : Prop := -2 ^ 63 ≤ n ∧ n < 2 ^ 63

/-- What an integer stands for is in range. -/
theorem inRange_toInt (a : Int64) : InRange a.toInt := ⟨a.le_toInt, a.toInt_lt⟩

/-- A number in range is that of an integer. -/
theorem exists_ofInt? (h : InRange n) : ∃ v : Int64, v.toInt = n ∧ ofInt? n = some v := by
  refine ⟨.ofInt n, Int64.toInt_ofInt_of_le h.1 h.2, if_pos ?_⟩
  rw [Int64.toInt_minValue, Int64.toInt_maxValue]
  exact ⟨h.1, Int.le_sub_one_of_lt h.2⟩

/-- A number out of range is that of none. -/
theorem ofInt?_eq_none (h : ¬ InRange n) : ofInt? n = none := by
  refine if_neg fun hle => h ?_
  rw [Int64.toInt_minValue, Int64.toInt_maxValue] at hle
  exact ⟨hle.1, Int.lt_of_le_sub_one hle.2⟩

/-- Quotient and remainder of a division that is truncated toward zero: the remainder is smaller
than the divisor, and on the same side of zero as the dividend. -/
structure Truncates (a b quotient remainder : ℤ) : Prop where
  /-- The two make up the dividend. -/
  whole : a = quotient * b + remainder
  /-- The remainder is smaller than the divisor. -/
  small : remainder.natAbs < b.natAbs
  /-- It has the sign of the dividend. -/
  sign : remainder ≠ 0 → remainder.sign = a.sign

/-- The truncated division of whole numbers. -/
theorem truncates_tdiv (hn : n ≠ 0) : Truncates m n (m.tdiv n) (m.tmod n) where
  whole := (Int.tdiv_mul_add_tmod m n).symm
  small := by
    rw [Int.natAbs_tmod]
    exact Nat.mod_lt _ (Int.natAbs_pos.mpr hn)
  sign hne := by
    rw [Int.sign_tmod, if_neg fun hdvd => hne (Int.tmod_eq_zero_of_dvd hdvd)]

/-- Remainders are in range. -/
theorem inRange_tmod (a b : Int64) : InRange (a.toInt.tmod b.toInt) := by
  have ha := inRange_toInt a
  have hb := inRange_toInt b
  by_cases hzero : b.toInt = 0
  · rwa [hzero, Int.tmod_zero]
  · have hsmall := (truncates_tdiv (m := a.toInt) hzero).small
    unfold InRange at *
    omega

/-- One negation is out of range. -/
theorem not_inRange_neg_iff (a : Int64) : ¬ InRange (-a.toInt) ↔ a = Int64.minValue := by
  have ha := inRange_toInt a
  rw [← Int64.toInt_inj, Int64.toInt_minValue]
  unfold InRange at *
  omega

/-- Quotients are in range, unless the divisor is `-1`. -/
theorem inRange_tdiv (hb : b.toInt ≠ -1) : InRange (a.toInt.tdiv b.toInt) := by
  have ha := inRange_toInt a
  by_cases hone : b.toInt = 1
  · rwa [hone, Int.tdiv_one]
  by_cases hzero : b.toInt = 0
  · rw [hzero, Int.tdiv_zero]
    exact ⟨by decide, by decide⟩
  · -- The quotient is half the dividend at most.
    have hhalf : a.toInt.natAbs / b.toInt.natAbs ≤ a.toInt.natAbs / 2 :=
      Nat.div_le_div_left (by omega) (by decide)
    have hquotient : (a.toInt.tdiv b.toInt).natAbs = a.toInt.natAbs / b.toInt.natAbs :=
      Int.natAbs_tdiv ..
    unfold InRange at *
    omega

/-- One quotient is out of range. -/
theorem not_inRange_tdiv_iff (a b : Int64) :
    ¬ InRange (a.toInt.tdiv b.toInt) ↔ a = Int64.minValue ∧ b = -1 := by
  have hone : (-1 : Int64).toInt = -1 := by decide
  by_cases hb : b = -1
  · rw [hb, hone, Int.tdiv_neg, Int.tdiv_one, not_inRange_neg_iff]
    exact (and_iff_left rfl).symm
  · refine iff_of_false (not_not_intro (inRange_tdiv fun heq => hb ?_)) fun h => hb h.2
    rwa [← Int64.toInt_inj, hone]

/-- The remainder is there if the quotient is. -/
theorem rem?_eq_some (hb : b ≠ 0) (h : InRange (a.toInt.tdiv b.toInt)) :
    ∃ v : Int64, v.toInt = a.toInt.tmod b.toInt ∧ rem? a b = some v := by
  obtain ⟨quotient, -, hquotient⟩ := exists_ofInt? h
  obtain ⟨v, hv, hsome⟩ := exists_ofInt? (inRange_tmod a b)
  refine ⟨v, hv, ?_⟩
  rw [rem?, div?, if_neg hb, hquotient, Option.bind_some, hsome]

/-- It is missing if the quotient is. -/
theorem rem?_eq_none (hb : b ≠ 0) (h : ¬ InRange (a.toInt.tdiv b.toInt)) : rem? a b = none := by
  rw [rem?, div?, if_neg hb, ofInt?_eq_none h, Option.bind_none]

end Integer

/-! ## Outcomes of operations -/

variable {σ : Type} {w : World σ} {step : Effect σ (Option Expr)} {op : String} {refused : Prop}
  {deciding result : ℤ}

/-- An operation on integers ends in one of three ways: it refuses a divisor, it overflows because
the number that decides is out of range, or it gives the literal of its result. -/
structure Exact (step : Effect σ (Option Expr)) (w : World σ) (op : String) (refused : Prop)
    (deciding result : ℤ) : Prop where
  /-- A division by zero is a refused divisor. -/
  divisionByZero : step w = .error .divisionByZero w ↔ refused
  /-- An overflow is a number out of range. -/
  overflow : step w = .error (.overflow op) w ↔ ¬ refused ∧ ¬ Integer.InRange deciding
  /-- All else has the exact result. -/
  literal : ¬ refused → Integer.InRange deciding →
    ∃ v : Int64, v.toInt = result ∧ step w = .ok (some (.int v)) w

namespace Exact

/-- A refused divisor. -/
theorem of_refused (hrefused : refused) (hstep : step w = .error .divisionByZero w) :
    Exact step w op refused deciding result where
  divisionByZero := iff_of_true hstep hrefused
  overflow := by
    rw [hstep]
    exact iff_of_false nofun fun h => h.1 hrefused
  literal h := absurd hrefused h

/-- A checked result, which is there if the number that decides is in range. -/
theorem checked {value : Option Int64} (hrefused : ¬ refused)
    (hstep : step w = Effect.checked op value w)
    (hsome : Integer.InRange deciding → ∃ v : Int64, v.toInt = result ∧ value = some v)
    (hnone : ¬ Integer.InRange deciding → value = none) :
    Exact step w op refused deciding result := by
  by_cases hin : Integer.InRange deciding
  · obtain ⟨v, hv, rfl⟩ := hsome hin
    refine ⟨?_, ?_, fun _ _ => ⟨v, hv, hstep⟩⟩ <;> rw [hstep]
    · exact iff_of_false nofun hrefused
    · exact iff_of_false nofun fun h => h.2 hin
  · obtain rfl := hnone hin
    refine ⟨?_, ?_, fun _ h => absurd h hin⟩ <;> rw [hstep]
    · exact iff_of_false nofun hrefused
    · exact iff_of_true rfl ⟨hrefused, hin⟩

/-- A checked result that decides itself. -/
theorem checked_ofInt? (hrefused : ¬ refused)
    (hstep : step w = Effect.checked op (Integer.ofInt? result) w) :
    Exact step w op refused result result :=
  checked hrefused hstep Integer.exists_ofInt? Integer.ofInt?_eq_none

/-- A literal is the one of the result. -/
theorem toInt_eq (h : Exact step w op refused deciding result) {v : Int64}
    (hv : step w = .ok (some (.int v)) w) : ¬ refused ∧ v.toInt = result := by
  have hrefused : ¬ refused := fun hr => by
    rw [h.divisionByZero.mpr hr] at hv
    cases hv
  have hin : Integer.InRange deciding := by
    by_contra hout
    rw [h.overflow.mpr ⟨hrefused, hout⟩] at hv
    cases hv
  obtain ⟨v', hv', hstep⟩ := h.literal hrefused hin
  rw [hstep] at hv
  cases hv
  exact ⟨hrefused, hv'⟩

end Exact

/-! ## The operators -/

/-- What a comparison says of two whole numbers. -/
def BinaryOp.Relates : BinaryOp → ℤ → ℤ → Prop
  | .eq, m, n => m = n
  | .ne, m, n => m ≠ n
  | .lt, m, n => m < n
  | .le, m, n => m ≤ n
  | .gt, m, n => n < m
  | .ge, m, n => n ≤ m
  | _, _, _ => False

/-- Comparisons are read off the order of their operands. -/
theorem BinaryOp.ofOrdering_compare {op : BinaryOp} (h : op.isComparison = true) (m n : ℤ) :
    ∃ answer, op.ofOrdering (compare m n) = some answer ∧ (answer = true ↔ op.Relates m n) := by
  cases op with
  | add | sub | mul | div | rem | and | or => cases h
  | eq => exact ⟨_, rfl, beq_iff_eq.trans compare_eq_iff_eq⟩
  | ne => exact ⟨_, rfl, bne_iff_ne.trans (not_congr compare_eq_iff_eq)⟩
  | lt => exact ⟨_, rfl, beq_iff_eq.trans compare_lt_iff_lt⟩
  | le => exact ⟨_, rfl, bne_iff_ne.trans compare_le_iff_le⟩
  | gt => exact ⟨_, rfl, beq_iff_eq.trans compare_gt_iff_gt⟩
  | ge => exact ⟨_, rfl, bne_iff_ne.trans compare_ge_iff_ge⟩

/-- Two integers, the least one and `-1`. -/
def World.ofLeast : World Unit :=
  (Effect.materialize (.value .int (.scalar (.int (-1))))).after
    ((Effect.materialize (.value .int (.scalar (.int Int64.minValue)))).after
      (.ofTypes .initial ()))

namespace Plugin

variable {l r : InstanceId} {a b : Int64}

/-- An operation on two integers reads both and goes on with them. -/
theorem int_reads (ha : (w.heap.get l).payload = .scalar (.int a))
    (hb : (w.heap.get r).payload = .scalar (.int b))
    (next : Int64 → Int64 → Effect σ (Option Expr)) :
    (do let x ← Effect.intOf l; let y ← Effect.intOf r; next x y) w = next a b w := by
  rw [bind_of_ok (intOf_apply ha), bind_of_ok (intOf_apply hb)]

/-- **Integer operators are exact.** Sums, differences, products, truncated quotients and negations
of integers, and the remainders that go with the quotients, end in one of the three ways. Where a
quotient and its remainder are there they make up the dividend. Comparisons answer what is true of
the whole numbers. -/
theorem integer_operators_exact (ha : (w.heap.get l).payload = .scalar (.int a))
    (hb : (w.heap.get r).payload = .scalar (.int b)) :
    let binary (op : BinaryOp) : Effect σ (Option Expr) := int.operator (.binary op l r)
    Exact (binary .add) w "+" False (a.toInt + b.toInt) (a.toInt + b.toInt) ∧
      Exact (binary .sub) w "-" False (a.toInt - b.toInt) (a.toInt - b.toInt) ∧
      Exact (binary .mul) w "*" False (a.toInt * b.toInt) (a.toInt * b.toInt) ∧
      Exact (binary .div) w "/" (b = 0) (a.toInt.tdiv b.toInt) (a.toInt.tdiv b.toInt) ∧
      Exact (binary .rem) w "%" (b = 0) (a.toInt.tdiv b.toInt) (a.toInt.tmod b.toInt) ∧
      Exact (int.operator (.unary .neg l)) w "-" False (-a.toInt) (-a.toInt) ∧
      (∀ q m : Int64, binary .div w = .ok (some (.int q)) w →
        binary .rem w = .ok (some (.int m)) w →
        Integer.Truncates a.toInt b.toInt q.toInt m.toInt) ∧
      ∀ op : BinaryOp, op.isComparison = true → ∃ answer : Bool,
        binary op w = .ok (some (.bool answer)) w ∧
          (answer = true ↔ op.Relates a.toInt b.toInt) := by
  intro binary
  have hread := int_reads ha hb
  have hdiv : Exact (binary .div) w "/" (b = 0) (a.toInt.tdiv b.toInt) (a.toInt.tdiv b.toInt) := by
    by_cases h0 : b = 0
    · exact .of_refused h0 ((hread _).trans (by simp only [if_pos h0]; rfl))
    · exact .checked_ofInt? h0 ((hread _).trans (by simp only [if_neg h0, Integer.div?]; rfl))
  have hrem : Exact (binary .rem) w "%" (b = 0) (a.toInt.tdiv b.toInt) (a.toInt.tmod b.toInt) := by
    by_cases h0 : b = 0
    · exact .of_refused h0 ((hread _).trans (by simp only [if_pos h0]; rfl))
    · -- The quotient decides, since every remainder is in range.
      exact .checked h0 ((hread _).trans (by simp only [if_neg h0]; rfl))
        (Integer.rem?_eq_some h0) (Integer.rem?_eq_none h0)
  refine ⟨.checked_ofInt? not_false (hread _), .checked_ofInt? not_false (hread _),
    .checked_ofInt? not_false (hread _), hdiv, hrem,
    .checked_ofInt? not_false (bind_of_ok (intOf_apply ha)), fun q m hq hm => ?_, fun op hop => ?_⟩
  · obtain ⟨h0, hq⟩ := hdiv.toInt_eq hq
    rw [hq, (hrem.toInt_eq hm).2]
    exact Integer.truncates_tdiv fun hb => h0 (Int64.toInt_inj.mp hb)
  · obtain ⟨answer, hanswer, hiff⟩ := BinaryOp.ofOrdering_compare hop a.toInt b.toInt
    refine ⟨answer, (hread _).trans ?_, hiff⟩
    cases op with
    | add | sub | mul | div | rem | and | or => cases hop
    | eq | ne | lt | le | gt | ge => simp only [hanswer]; rfl

/-- The least integer has neither a negation nor a quotient by `-1`, and so no remainder. -/
theorem integer_operators_exact_least :
    let w := World.ofLeast
    let binary (op : BinaryOp) : Effect Unit (Option Expr) := int.operator (.binary op ⟨0⟩ ⟨1⟩)
    (w.heap.get ⟨0⟩).payload = .scalar (.int Int64.minValue) ∧
      (w.heap.get ⟨1⟩).payload = .scalar (.int (-1)) ∧
      int.operator (.unary .neg ⟨0⟩) w = .error (.overflow "-") w ∧
      binary .div w = .error (.overflow "/") w ∧ binary .rem w = .error (.overflow "%") w ∧
      ∃ answer, binary .lt w = .ok (some (.bool answer)) w ∧
        (answer = true ↔ Int64.minValue.toInt < (-1 : Int64).toInt) := by
  have ha : (World.ofLeast.heap.get ⟨0⟩).payload = .scalar (.int Int64.minValue) := rfl
  have hb : (World.ofLeast.heap.get ⟨1⟩).payload = .scalar (.int (-1)) := rfl
  obtain ⟨-, -, -, hdiv, hrem, hneg, -, hcompare⟩ := integer_operators_exact ha hb
  have hne : (-1 : Int64) ≠ 0 := by decide
  have hquotient := (Integer.not_inRange_tdiv_iff Int64.minValue (-1)).mpr ⟨rfl, rfl⟩
  exact ⟨ha, hb, hneg.overflow.mpr ⟨not_false, (Integer.not_inRange_neg_iff _).mpr rfl⟩,
    hdiv.overflow.mpr ⟨hne, hquotient⟩, hrem.overflow.mpr ⟨hne, hquotient⟩, hcompare .lt rfl⟩

end Plugin

end ObjectGraph
