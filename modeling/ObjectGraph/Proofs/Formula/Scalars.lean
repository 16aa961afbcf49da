import ObjectGraph.Plugin.Builtin
import ObjectGraph.Proofs.Outcome

/-!
# Operators on scalars

What the operators of expressions come to on the values of scalar instances, without a heap, and
why they may come to nothing. `operator_binary` and `operator_unary` say that the plugins of the
scalar types compute exactly this.
-/

namespace ObjectGraph

/-- Why an expression has no value. -/
inductive Fault where
  /-- A division or remainder by zero. -/
  | divisionByZero
  /-- An integer result that does not fit. -/
  | overflow
  /-- Operands of two types. -/
  | mismatched
  /-- Operands that the operator does not take, or an expression that is not a formula. -/
  | mistyped
  /-- A name that nothing is bound to. -/
  | unknownName
  /-- An evaluation that is deeper than allowed. -/
  | tooDeep
deriving DecidableEq, Repr

/-- An integer result that must fit. -/
def Fault.fitting : Option Int64 → Except Fault Scalar
  | some value => .ok (.int value)
  | none => .error .overflow

/-- A comparison's answer. -/
def Fault.comparing : Option Bool → Except Fault Scalar
  | some answer => .ok (.bool answer)
  | none => .error .mistyped

namespace BinaryOp

/-- A binary operator on integers. -/
def onInts (op : BinaryOp) (a b : Int64) : Except Fault Scalar :=
  match op with
  | .add => Fault.fitting (Integer.add? a b)
  | .sub => Fault.fitting (Integer.sub? a b)
  | .mul => Fault.fitting (Integer.mul? a b)
  | .div => if b = 0 then .error .divisionByZero else Fault.fitting (Integer.div? a b)
  | .rem => if b = 0 then .error .divisionByZero else Fault.fitting (Integer.rem? a b)
  | op => Fault.comparing (op.ofOrdering (compare a.toInt b.toInt))

/-- A binary operator on floats. Division by either zero has no result. -/
def onFloatValues (op : BinaryOp) (a b : Float) : Except Fault Scalar :=
  match op with
  | .add => .ok (.float (a + b))
  | .sub => .ok (.float (a - b))
  | .mul => .ok (.float (a * b))
  | .div => if b == 0 then .error .divisionByZero else .ok (.float (a / b))
  | .rem => if b == 0 then .error .divisionByZero else .ok (.float (floatRemainder a b))
  | op => Fault.comparing (op.onFloats a b)

/-- A binary operator on texts: joining, and comparison by code point. -/
def onStrings (op : BinaryOp) (a b : String) : Except Fault Scalar :=
  match op with
  | .add => .ok (.string (a ++ b))
  | op => Fault.comparing (op.ofOrdering (compare a b))

/-- A binary operator on truth values. -/
def onBools (op : BinaryOp) (a b : Bool) : Except Fault Scalar :=
  match op with
  | .and => .ok (.bool (a && b))
  | .or => .ok (.bool (a || b))
  | .eq => .ok (.bool (a == b))
  | .ne => .ok (.bool (a != b))
  | _ => .error .mistyped

/-- A binary operator on scalars, which must have one type. -/
def onScalars (op : BinaryOp) : Scalar → Scalar → Except Fault Scalar
  | .int a, .int b => op.onInts a b
  | .float a, .float b => op.onFloatValues a b
  | .string a, .string b => op.onStrings a b
  | .bool a, .bool b => op.onBools a b
  | _, _ => .error .mismatched

end BinaryOp

/-- A unary operator on a scalar. -/
def UnaryOp.onScalar : UnaryOp → Scalar → Except Fault Scalar
  | .neg, .int a => Fault.fitting (Integer.neg? a)
  | .neg, .float a => .ok (.float (-a))
  | .not, .bool a => .ok (.bool (!a))
  | _, _ => .error .mistyped

/-- Operands of two types have no result. -/
theorem onScalars_of_ty_ne (op : BinaryOp) {a b : Scalar} (h : a.ty ≠ b.ty) :
    op.onScalars a b = .error .mismatched := by
  cases a <;> cases b <;> first | exact absurd rfl h | rfl

variable {σ : Type}

/-! ## The plugins of scalar types -/

/-- The scalar types have their built-in plugins. -/
structure Natives.HasScalars (natives : Natives σ) : Prop where
  /-- Integers. -/
  int : natives.plugins.lookup .int = some .int
  /-- Floats. -/
  float : natives.plugins.lookup .float = some .float
  /-- Texts. -/
  string : natives.plugins.lookup .string = some .string
  /-- Truth values. -/
  bool : natives.plugins.lookup .bool = some .bool

/-- The built-in set has the plugins of scalar types. -/
theorem Natives.builtin_hasScalars : (Natives.builtin : Natives σ).HasScalars :=
  ⟨rfl, rfl, rfl, rfl⟩

/-- The built-in plugin of a scalar's type. -/
def Scalar.plugin : Scalar → Plugin σ
  | .int _ => .int
  | .float _ => .float
  | .string _ => .string
  | .bool _ => .bool

/-- A type with a plugin of its own is answered by it, whatever its ancestors are. -/
theorem Natives.pluginFor_of_lookup {natives : Natives σ} {ty : TypeId} {plugin : Plugin σ}
    (h : natives.plugins.lookup ty = some plugin) (types : Registry) :
    natives.pluginFor types ty = plugin := by
  simp [Natives.pluginFor, Natives.nearest?, Registry.lineage, h]

/-- The plugin of a scalar's type is the built-in one. -/
theorem Natives.HasScalars.pluginFor {natives : Natives σ} (hn : natives.HasScalars)
    (types : Registry) (v : Scalar) : natives.pluginFor types v.ty = v.plugin := by
  cases v with
  | int => exact Natives.pluginFor_of_lookup hn.int types
  | float => exact Natives.pluginFor_of_lookup hn.float types
  | string => exact Natives.pluginFor_of_lookup hn.string types
  | bool => exact Natives.pluginFor_of_lookup hn.bool types

/-- What an operation in the world comes to, against its result on scalars: the same value as a
literal, or an error where there is none. The world stays as it is. -/
def Computes (step : Effect σ (Option Expr)) (w : World σ) (result : Except Fault Scalar) : Prop :=
  match result with
  | .ok v => step w = .ok (some (.scalar v)) w
  | .error _ => ∃ e, step w = .error e w

/-- A checked integer result. -/
theorem computes_checked (op : String) (r : Option Int64) (w : World σ) :
    Computes (Effect.checked op r) w (Fault.fitting r) := by
  cases r with
  | some value => rfl
  | none => exact ⟨_, rfl⟩

/-- An answered comparison. -/
theorem computes_comparison (operation : Operation) (r : Option Bool) (w : World σ) :
    Computes (Plugin.comparison operation r) w (Fault.comparing r) := by
  cases r with
  | some answer => rfl
  | none => exact ⟨_, rfl⟩

/-- Reading the value of an integer. -/
theorem intOf_apply {w : World σ} {id : InstanceId} {a : Int64}
    (h : (w.heap.get id).payload = .scalar (.int a)) : Effect.intOf id w = .ok a w := by
  simp only [Effect.intOf, bind_apply, Effect.instanceOf_apply, h]
  rfl

/-- Reading the value of a float. -/
theorem floatOf_apply {w : World σ} {id : InstanceId} {a : Float}
    (h : (w.heap.get id).payload = .scalar (.float a)) : Effect.floatOf id w = .ok a w := by
  simp only [Effect.floatOf, bind_apply, Effect.instanceOf_apply, h]
  rfl

/-- Reading the value of a text. -/
theorem stringOf_apply {w : World σ} {id : InstanceId} {a : String}
    (h : (w.heap.get id).payload = .scalar (.string a)) : Effect.stringOf id w = .ok a w := by
  simp only [Effect.stringOf, bind_apply, Effect.instanceOf_apply, h]
  rfl

/-- Reading a truth value. -/
theorem boolOf_apply {w : World σ} {id : InstanceId} {a : Bool}
    (h : (w.heap.get id).payload = .scalar (.bool a)) : Effect.boolOf id w = .ok a w := by
  simp only [Effect.boolOf, bind_apply, Effect.instanceOf_apply, h]
  rfl

/-- Only the outcome of the step matters. -/
theorem Computes.congr {step step' : Effect σ (Option Expr)} {w : World σ}
    {result : Except Fault Scalar} (h : Computes step w result) (hs : step' w = step w) :
    Computes step' w result := by
  unfold Computes at h ⊢
  rw [hs]
  exact h

section Operators

variable {w : World σ} {l r : InstanceId}

/-- The integer plugin computes the operators on integers. -/
theorem intOperator_binary (op : BinaryOp) {a b : Int64}
    (ha : (w.heap.get l).payload = .scalar (.int a))
    (hb : (w.heap.get r).payload = .scalar (.int b)) :
    Computes (Plugin.intOperator (.binary op l r)) w (op.onInts a b) := by
  have hread (next : Int64 → Int64 → Effect σ (Option Expr)) :
      (do let x ← Effect.intOf l; let y ← Effect.intOf r; next x y) w = next a b w := by
    rw [bind_of_ok (intOf_apply ha), bind_of_ok (intOf_apply hb)]
  cases op with
  | add => exact (computes_checked _ _ w).congr (hread _)
  | sub => exact (computes_checked _ _ w).congr (hread _)
  | mul => exact (computes_checked _ _ w).congr (hread _)
  | div =>
    by_cases h0 : b = 0
    · rw [show BinaryOp.onInts .div a b = .error .divisionByZero from if_pos h0]
      exact ⟨.divisionByZero, (hread _).trans (by simp only [if_pos h0]; rfl)⟩
    · rw [show BinaryOp.onInts .div a b = Fault.fitting (Integer.div? a b) from if_neg h0]
      exact (computes_checked BinaryOp.div.symbol _ w).congr ((hread _).trans (by simp only [if_neg h0]))
  | rem =>
    by_cases h0 : b = 0
    · rw [show BinaryOp.onInts .rem a b = .error .divisionByZero from if_pos h0]
      exact ⟨.divisionByZero, (hread _).trans (by simp only [if_pos h0]; rfl)⟩
    · rw [show BinaryOp.onInts .rem a b = Fault.fitting (Integer.rem? a b) from if_neg h0]
      exact (computes_checked BinaryOp.rem.symbol _ w).congr ((hread _).trans (by simp only [if_neg h0]))
  | _ => exact Computes.congr (computes_comparison (.binary _ l r) _ w) (hread _)

/-- The float plugin computes the operators on floats. -/
theorem floatOperator_binary (op : BinaryOp) {a b : Float}
    (ha : (w.heap.get l).payload = .scalar (.float a))
    (hb : (w.heap.get r).payload = .scalar (.float b)) :
    Computes (Plugin.floatOperator (.binary op l r)) w (op.onFloatValues a b) := by
  have hread (next : Float → Float → Effect σ (Option Expr)) :
      (do let x ← Effect.floatOf l; let y ← Effect.floatOf r; next x y) w = next a b w := by
    rw [bind_of_ok (floatOf_apply ha), bind_of_ok (floatOf_apply hb)]
  cases op with
  | add => exact hread _
  | sub => exact hread _
  | mul => exact hread _
  | div =>
    by_cases h0 : (b == 0) = true
    · rw [show BinaryOp.onFloatValues .div a b = .error .divisionByZero from if_pos h0]
      exact ⟨.divisionByZero, (hread _).trans (by simp only [if_pos h0]; rfl)⟩
    · rw [show BinaryOp.onFloatValues .div a b = .ok (.float (a / b)) from if_neg h0]
      exact (hread _).trans (by simp only [if_neg h0]; rfl)
  | rem =>
    by_cases h0 : (b == 0) = true
    · rw [show BinaryOp.onFloatValues .rem a b = .error .divisionByZero from if_pos h0]
      exact ⟨.divisionByZero, (hread _).trans (by simp only [if_pos h0]; rfl)⟩
    · rw [show BinaryOp.onFloatValues .rem a b = .ok (.float (floatRemainder a b)) from
        if_neg h0]
      exact (hread _).trans (by simp only [if_neg h0]; rfl)
  | _ => exact Computes.congr (computes_comparison (.binary _ l r) _ w) (hread _)

/-- The text plugin computes the operators on texts. -/
theorem stringOperator_binary (op : BinaryOp) {a b : String}
    (ha : (w.heap.get l).payload = .scalar (.string a))
    (hb : (w.heap.get r).payload = .scalar (.string b)) :
    Computes (Plugin.stringOperator (.binary op l r)) w (op.onStrings a b) := by
  have hread (next : String → String → Effect σ (Option Expr)) :
      (do let x ← Effect.stringOf l; let y ← Effect.stringOf r; next x y) w = next a b w := by
    rw [bind_of_ok (stringOf_apply ha), bind_of_ok (stringOf_apply hb)]
  cases op with
  | add => exact hread _
  | _ => exact Computes.congr (computes_comparison (.binary _ l r) _ w) (hread _)

/-- The plugin of truth values computes the operators on them. -/
theorem boolOperator_binary (op : BinaryOp) {a b : Bool}
    (ha : (w.heap.get l).payload = .scalar (.bool a))
    (hb : (w.heap.get r).payload = .scalar (.bool b)) :
    Computes (Plugin.boolOperator (.binary op l r)) w (op.onBools a b) := by
  have hread (next : Bool → Bool → Effect σ (Option Expr)) :
      (do let x ← Effect.boolOf l; let y ← Effect.boolOf r; next x y) w = next a b w := by
    rw [bind_of_ok (boolOf_apply ha), bind_of_ok (boolOf_apply hb)]
  cases op with
  | and => exact hread _
  | or => exact hread _
  | eq => exact hread _
  | ne => exact hread _
  | _ => exact ⟨_, (hread _).trans rfl⟩

/-- On operands of one scalar type the plugin of that type computes the operator. -/
theorem operator_binary (op : BinaryOp) {a b : Scalar}
    (ha : (w.heap.get l).payload = .scalar a) (hb : (w.heap.get r).payload = .scalar b)
    (hty : a.ty = b.ty) :
    Computes (a.plugin.operator (.binary op l r)) w (op.onScalars a b) := by
  cases a with
  | int a =>
    cases b with
    | int b => exact intOperator_binary op ha hb
    | _ => exact absurd hty (by simp [Scalar.ty, TypeId.int, TypeId.float, TypeId.string, TypeId.bool])
  | float a =>
    cases b with
    | float b => exact floatOperator_binary op ha hb
    | _ => exact absurd hty (by simp [Scalar.ty, TypeId.int, TypeId.float, TypeId.string, TypeId.bool])
  | string a =>
    cases b with
    | string b => exact stringOperator_binary op ha hb
    | _ => exact absurd hty (by simp [Scalar.ty, TypeId.int, TypeId.float, TypeId.string, TypeId.bool])
  | bool a =>
    cases b with
    | bool b => exact boolOperator_binary op ha hb
    | _ => exact absurd hty (by simp [Scalar.ty, TypeId.int, TypeId.float, TypeId.string, TypeId.bool])

/-- The plugin of a scalar type computes the unary operators other than `typeof`. -/
theorem operator_unary (op : UnaryOp) {a : Scalar} {id : InstanceId}
    (ha : (w.heap.get id).payload = .scalar a) :
    Computes (a.plugin.operator (.unary op id)) w (op.onScalar a) := by
  cases a with
  | int a =>
    cases op with
    | neg =>
      exact (computes_checked UnaryOp.neg.symbol (Integer.neg? a) w).congr
        (bind_of_ok (intOf_apply ha))
    | _ => exact ⟨_, rfl⟩
  | float a =>
    cases op with
    | neg => exact bind_of_ok (floatOf_apply ha)
    | _ => exact ⟨_, rfl⟩
  | string a => cases op <;> exact ⟨_, rfl⟩
  | bool a =>
    cases op with
    | not => exact bind_of_ok (boolOf_apply ha)
    | _ => exact ⟨_, rfl⟩

end Operators

end ObjectGraph
