import ObjectGraph.Proofs.Check.Fits
import ObjectGraph.Proofs.Check.Poison
import ObjectGraph.Proofs.Run.Steps
import ObjectGraph.Proofs.ShortCircuit

/-!
# Operators that the checker accepts

The checker accepts a binary operator by the static type of its operands, and the reducer computes
it by the plugin that speaks for their runtime type. The two agree because a lineage leads to at
most one type with a built-in plugin (`Registry.nativeType?`): an operator that has a result on the
static type has the same result on that one (`resultOn_nativeType`). So the plugin answers a literal
of the type that the checker has promised, unless the arithmetic has no result
(`delivers_builtin`).

`accepted_operator_progress` puts the two together, for operands that carry the data their plugin
reads. Operands of two runtime types are refused, although both may fit the static type.
-/

namespace ObjectGraph

variable {σ : Type}

/-! ## The type that speaks for an operand -/

/-- The root of all classes is no scalar type. -/
theorem Scalar.ty_ne_any (v : Scalar) : v.ty ≠ .any := by
  intro h
  cases v <;> cases h

/-- Nor is the type that all array types extend. -/
theorem Scalar.ty_ne_anyArray (v : Scalar) : v.ty ≠ .anyArray := by
  intro h
  cases v <;> cases h

/-- Whether a type has a plugin in the built-in set. -/
def TypeId.isNative (ty : TypeId) : Bool := ty.isBuiltin && ty ≠ .any

/-- The types with built-in plugins. -/
theorem TypeId.isNative_iff {ty : TypeId} :
    ty.isNative = true ↔ (∃ v : Scalar, v.ty = ty) ∨ ty = .type ∨ ty = .anyArray := by
  constructor
  · obtain ⟨i⟩ := ty
    intro h
    have hi : i < builtinCount := of_decide_eq_true (Bool.and_eq_true_iff.mp h).1
    match i, hi with
    | 0, _ => cases h
    | 1, _ => exact .inl ⟨.int 0, rfl⟩
    | 2, _ => exact .inl ⟨.float 0, rfl⟩
    | 3, _ => exact .inl ⟨.string "", rfl⟩
    | 4, _ => exact .inl ⟨.bool false, rfl⟩
    | 5, _ => exact .inr (.inl rfl)
    | 6, _ => exact .inr (.inr rfl)
  · rintro (⟨v, rfl⟩ | rfl | rfl)
    · cases v <;> rfl
    · rfl
    · rfl

/-- A type has a built-in plugin of its own exactly if it is one of these. -/
theorem Natives.isSome_lookup_builtin (ty : TypeId) :
    ((Natives.builtin : Natives σ).plugins.lookup ty).isSome = ty.isNative := by
  obtain ⟨i⟩ := ty
  match i with
  | 0 | 1 | 2 | 3 | 4 | 5 | 6 => rfl
  | i + 7 =>
    have hbuiltin : (⟨i + 7⟩ : TypeId).isBuiltin = false :=
      decide_eq_false (by simp only [TypeId.builtinCount]; omega)
    rw [TypeId.isNative, hbuiltin]
    rfl

namespace Registry

variable {r : Registry} {ty s result : TypeId}

/-- The nearest type of a lineage that has a built-in plugin. -/
def nativeType? (r : Registry) (ty : TypeId) : Option TypeId := (r.lineage ty).find? (·.isNative)

/-- It has one. -/
theorem isNative_of_nativeType? (h : r.nativeType? ty = some s) : s.isNative = true :=
  List.find?_some h

/-- The plugin that speaks for a type is the one of that type. -/
theorem pluginFor_builtin (r : Registry) (ty : TypeId) :
    (Natives.builtin : Natives σ).pluginFor r ty =
      ((r.nativeType? ty).bind fun t => (Natives.builtin : Natives σ).plugins.lookup t).getD
        .plainClass := by
  unfold Natives.pluginFor Natives.nearest? nativeType?
  congr 1
  induction r.lineage ty with
  | nil => rfl
  | cons t rest ih =>
    rw [List.findSome?_cons, List.find?_cons, ← Natives.isSome_lookup_builtin (σ := σ) t]
    cases hplugin : (Natives.builtin : Natives σ).plugins.lookup t with
    | some plugin => simp only [Option.isSome_some, Option.bind_some, hplugin]
    | none => simpa only [Option.isSome_none] using ih

section Builtins

variable (hb : r.HasBuiltins)

include hb

/-- The types with built-in plugins extend `any`. -/
theorem HasBuiltins.parent_of_isNative (hs : s.isNative = true) : r.parent s = some .any := by
  obtain ⟨hbuiltin, -⟩ := Bool.and_eq_true_iff.mp hs
  rw [Registry.parent, hb.definition hbuiltin]
  obtain ⟨v, rfl⟩ | rfl | rfl := TypeId.isNative_iff.mp hs
  · cases v <;> rfl
  · rfl
  · rfl

/-- A lineage leads to at most one type with a built-in plugin. -/
theorem HasBuiltins.find_native (hs : s.isNative = true) (fuel : ℕ) (ty : TypeId)
    (hmem : s ∈ ty :: r.ancestorsWithin fuel ty) :
    (ty :: r.ancestorsWithin fuel ty).find? (·.isNative) = some s := by
  have hany : s ≠ .any := by rintro rfl; cases hs
  induction fuel generalizing ty with
  | zero =>
    obtain rfl : s = ty := List.mem_singleton.mp hmem
    exact List.find?_cons_of_pos hs
  | succ fuel ih =>
    by_cases hty : ty.isNative = true
    · -- Only `any` comes after a type with a built-in plugin.
      have hrest : ∀ t ∈ r.ancestorsWithin (fuel + 1) ty, t = .any := by
        intro t ht
        simp only [ancestorsWithin, hb.parent_of_isNative hty] at ht
        rcases List.mem_cons.mp ht with rfl | ht
        · rfl
        · have hroot : r.parent .any = none := hb.definition_any.1
          cases fuel with
          | zero => cases ht
          | succ fuel => simp only [ancestorsWithin, hroot] at ht; cases ht
      obtain rfl : s = ty :=
        (List.mem_cons.mp hmem).resolve_right fun hin => hany (hrest s hin)
      exact List.find?_cons_of_pos hs
    · have hne : s ≠ ty := by rintro rfl; exact hty hs
      have hin := (List.mem_cons.mp hmem).resolve_left hne
      rw [List.find?_cons_of_neg hty]
      rw [ancestorsWithin] at hin ⊢
      cases hparent : r.parent ty with
      | none => rw [hparent] at hin; cases hin
      | some parent => rw [hparent] at hin; exact ih parent hin

/-- A type that extends one with a built-in plugin is spoken for by it. -/
theorem HasBuiltins.nativeType?_of_isSubclass (hs : s.isNative = true)
    (h : r.isSubclass ty s = true) : r.nativeType? ty = some s :=
  hb.find_native hs r.size ty (List.contains_iff_mem.mp h)

/-- What fits a scalar type extends it, poison apart. -/
theorem HasBuiltins.isSubclass_of_assignable {v : Scalar} (hhealthy : r.isPoison ty = false)
    (h : r.assignable ty v.ty = true) : r.isSubclass ty v.ty = true := by
  have hkind : r.kind v.ty = .nominal := by
    rw [kind, hb.definition (by cases v <;> rfl)]
    cases v <;> rfl
  have hpoison : r.isPoison v.ty = false := by rw [isPoison, hkind]; rfl
  rw [assignable, infer, assignableWithin_empty, hhealthy, hpoison, hkind] at h
  simp only [Bool.or_false, v.ty_ne_any, decide_false] at h
  split at h
  · obtain rfl : ty = v.ty := of_decide_eq_true ‹_›
    exact List.contains_iff_mem.mpr List.mem_cons_self
  · cases hkind' : r.kind ty <;> rw [hkind'] at h <;> exact h

end Builtins

/-- An operator has a result on every type, or only on types of scalars. -/
theorem resultOn_cases {op : BinaryOp} (h : op.resultOn s = some result) :
    (∀ t, op.resultOn t = some result) ∨ ∃ v : Scalar, v.ty = s := by
  have hscalar (p : Prop) [Decidable p] (t : TypeId) (hp : p → ∃ v : Scalar, v.ty = s)
      (hif : (if p then some t else none) = some result) : ∃ v : Scalar, v.ty = s := by
    by_cases hyes : p
    · exact hp hyes
    · rw [if_neg hyes] at hif
      cases hif
  have hnumeric : s = .int ∨ s = .float → ∃ v : Scalar, v.ty = s := by
    rintro (rfl | rfl)
    · exact ⟨.int 0, rfl⟩
    · exact ⟨.float 0, rfl⟩
  have hordered : (s = .int ∨ s = .float) ∨ s = .string → ∃ v : Scalar, v.ty = s := by
    rintro (hnum | rfl)
    · exact hnumeric hnum
    · exact ⟨.string "", rfl⟩
  cases op with
  | eq | ne => exact .inl fun _ => h
  | sub | mul | div | rem => exact .inr (hscalar _ _ hnumeric h)
  | add | lt | le | gt | ge => exact .inr (hscalar _ _ hordered h)
  | and | or => exact .inr (hscalar _ _ (by rintro rfl; exact ⟨.bool false, rfl⟩) h)

/-- An operator that has a result on a static type has it on the type that speaks for an operand. -/
theorem HasBuiltins.resultOn_nativeType (hb : r.HasBuiltins) {op : BinaryOp}
    (hresult : op.resultOn s = some result) (hhealthy : r.isPoison ty = false)
    (hfits : r.assignable ty s = true) :
    op.resultOn ((r.nativeType? ty).getD .any) = some result := by
  obtain hall | ⟨v, rfl⟩ := resultOn_cases hresult
  · exact hall _
  · rw [hb.nativeType?_of_isSubclass (TypeId.isNative_iff.mpr (.inl ⟨v, rfl⟩))
      (hb.isSubclass_of_assignable hhealthy hfits)]
    exact hresult

end Registry

/-! ## What operators answer -/

/-- Errors of arithmetic that has no result. -/
inductive EvalError.IsArithmetic : EvalError → Prop where
  /-- A division or remainder by zero. -/
  | divisionByZero : IsArithmetic .divisionByZero
  /-- An integer result that does not fit. -/
  | overflow (op : String) : IsArithmetic (.overflow op)

/-- An operation delivers a literal of a type at once, unless the arithmetic has no result. -/
def Delivers (step : Effect σ (Option Expr)) (w : World σ) (ty : TypeId) : Prop :=
  Ends step w (fun answer w' => w' = w ∧ ∃ v : Scalar, v.ty = ty ∧ answer = some (.scalar v))
    fun e w' => w' = w ∧ e.IsArithmetic

namespace Delivers

variable {step : Effect σ (Option Expr)} {w : World σ} {l r : InstanceId} {ty : TypeId}
  {op : BinaryOp}

/-- The literal of a value. -/
theorem literal (v : Scalar) (h : step w = .ok (some (.scalar v)) w) : Delivers step w v.ty :=
  Ends.of_ok h ⟨rfl, v, rfl, rfl⟩

/-- Arithmetic without a result. -/
theorem arithmetic {e : EvalError} (h : step w = .error e w) (he : e.IsArithmetic) :
    Delivers step w ty :=
  Ends.of_error h ⟨rfl, he⟩

/-- Only the outcome of the step matters. -/
theorem congr {step' : Effect σ (Option Expr)} (h : Delivers step w ty) (hs : step' w = step w) :
    Delivers step' w ty :=
  Ends.congr h hs

/-- A checked integer result. -/
theorem checked (op : String) (value : Option Int64) :
    Delivers (Effect.checked op value) w .int := by
  cases value with
  | some value => exact .literal (.int value) rfl
  | none => exact .arithmetic rfl (.overflow op)

/-- An answered comparison. -/
theorem comparison (operation : Operation) {answer : Option Bool} (h : answer.isSome = true) :
    Delivers (Plugin.comparison operation answer) w .bool := by
  cases answer with
  | some answer => exact .literal (.bool answer) rfl
  | none => cases h

/-- The operators that every instance has are those of a type that is not a scalar's. -/
theorem identity {t : TypeId} (hop : op.resultOn t = some ty) (ht : ∀ v : Scalar, v.ty ≠ t) :
    Delivers (Effect.identityOperator (.binary op l r)) w ty := by
  have hany : op.resultOn .any = some ty :=
    (Registry.resultOn_cases hop).resolve_right (fun ⟨v, hv⟩ => ht v hv) .any
  cases op with
  | eq | ne => obtain rfl := Option.some.inj hany; exact .literal (.bool _) rfl
  | _ => cases hany

/-- Both operands are read before anything else. -/
theorem reads {α : Type} {read : InstanceId → Effect σ α} {a b : α} (hl : read l w = .ok a w)
    (hr : read r w = .ok b w) (next : α → α → Effect σ (Option Expr)) :
    (do let x ← read l; let y ← read r; next x y) w = next a b w := by
  rw [bind_of_ok hl, bind_of_ok hr]

/-- The operators of integers. -/
theorem int (hop : op.resultOn .int = some ty) {a b : Int64}
    (ha : (w.heap.get l).payload = .scalar (.int a))
    (hb : (w.heap.get r).payload = .scalar (.int b)) :
    Delivers (Plugin.intOperator (.binary op l r)) w ty := by
  have hread := reads (intOf_apply ha) (intOf_apply hb)
  cases op with
  | and | or => cases hop
  | add | sub | mul =>
    obtain rfl := Option.some.inj hop
    exact (checked _ _).congr (hread _)
  | div | rem =>
    obtain rfl := Option.some.inj hop
    by_cases h0 : b = 0
    · exact .arithmetic ((hread _).trans (by simp only [if_pos h0]; rfl)) .divisionByZero
    · exact (checked _ _).congr ((hread _).trans (by simp only [if_neg h0]; rfl))
  | eq | ne | lt | le | gt | ge =>
    obtain rfl := Option.some.inj hop
    exact (comparison (.binary _ l r) rfl).congr (hread _)

/-- Every comparison of floats has an answer. -/
theorem isSome_onFloats (h : op.isComparison = true) (a b : Float) :
    (op.onFloats a b).isSome = true := by
  unfold BinaryOp.onFloats
  cases floatOrdering? a b with
  | none => simp only [if_pos h, Option.isSome_some]
  | some ordering => cases op <;> first | rfl | cases h

/-- The operators of floats. -/
theorem float (hop : op.resultOn .float = some ty) {a b : Float}
    (ha : (w.heap.get l).payload = .scalar (.float a))
    (hb : (w.heap.get r).payload = .scalar (.float b)) :
    Delivers (Plugin.floatOperator (.binary op l r)) w ty := by
  have hread := reads (floatOf_apply ha) (floatOf_apply hb)
  cases op with
  | and | or => cases hop
  | add | sub | mul =>
    obtain rfl := Option.some.inj hop
    exact .literal (.float _) (hread _)
  | div | rem =>
    obtain rfl := Option.some.inj hop
    by_cases h0 : (b == 0) = true
    · exact .arithmetic ((hread _).trans (by simp only [if_pos h0]; rfl)) .divisionByZero
    · exact .literal (.float _) ((hread _).trans (by simp only [if_neg h0]; rfl))
  | eq | ne | lt | le | gt | ge =>
    obtain rfl := Option.some.inj hop
    exact (comparison (.binary _ l r) (isSome_onFloats rfl a b)).congr (hread _)

/-- The operators of texts. -/
theorem string (hop : op.resultOn .string = some ty) {a b : String}
    (ha : (w.heap.get l).payload = .scalar (.string a))
    (hb : (w.heap.get r).payload = .scalar (.string b)) :
    Delivers (Plugin.stringOperator (.binary op l r)) w ty := by
  have hread := reads (stringOf_apply ha) (stringOf_apply hb)
  cases op with
  | sub | mul | div | rem | and | or => cases hop
  | add => obtain rfl := Option.some.inj hop; exact .literal (.string _) (hread _)
  | eq | ne | lt | le | gt | ge =>
    obtain rfl := Option.some.inj hop
    exact (comparison (.binary _ l r) rfl).congr (hread _)

/-- The operators of truth values. -/
theorem bool (hop : op.resultOn .bool = some ty) {a b : Bool}
    (ha : (w.heap.get l).payload = .scalar (.bool a))
    (hb : (w.heap.get r).payload = .scalar (.bool b)) :
    Delivers (Plugin.boolOperator (.binary op l r)) w ty := by
  have hread := reads (boolOf_apply ha) (boolOf_apply hb)
  cases op with
  | and | or | eq | ne => obtain rfl := Option.some.inj hop; exact .literal (.bool _) (hread _)
  | _ => cases hop

/-- The operators of scalars of one type. -/
theorem scalar {a b : Scalar} (hop : op.resultOn a.ty = some ty) (hab : b.ty = a.ty)
    (ha : (w.heap.get l).payload = .scalar a) (hb : (w.heap.get r).payload = .scalar b) :
    Delivers (a.plugin.operator (.binary op l r)) w ty := by
  cases a with
  | int a =>
    cases b with
    | int b => exact .int hop ha hb
    | _ => cases hab
  | float a =>
    cases b with
    | float b => exact .float hop ha hb
    | _ => cases hab
  | string a =>
    cases b with
    | string b => exact .string hop ha hb
    | _ => cases hab
  | bool a =>
    cases b with
    | bool b => exact .bool hop ha hb
    | _ => cases hab

/-- The operators of reflections. -/
theorem type (hop : op.resultOn .type = some ty) {s t : TypeId}
    (hs : (w.heap.get l).payload = .type s) (ht : (w.heap.get r).payload = .type t) :
    Delivers (Plugin.typeOperator (.binary op l r)) w ty := by
  have hl : Effect.typeOf l w = .ok s w := by
    simp only [Effect.typeOf, bind_apply, Effect.instanceOf_apply, hs]
    rfl
  have hr : Effect.typeOf r w = .ok t w := by
    simp only [Effect.typeOf, bind_apply, Effect.instanceOf_apply, ht]
    rfl
  have hread := reads hl hr
  cases op with
  | eq | ne => obtain rfl := Option.some.inj hop; exact .literal (.bool _) (hread _)
  | _ => cases hop

end Delivers

/-- The built-in type whose plugin reads the data of an instance. -/
def Payload.nativeType? : Payload → Option TypeId
  | .scalar v => some v.ty
  | .type _ => some .type
  | _ => Option.none

/-- The data of a scalar type is a scalar of that type. -/
theorem Payload.exists_scalar {p : Payload} {v : Scalar} (h : p.nativeType? = some v.ty) :
    ∃ a, p = .scalar a ∧ a.ty = v.ty := by
  cases p with
  | scalar a => exact ⟨a, rfl, Option.some.inj h⟩
  | type t => cases v <;> cases h
  | _ => cases h

/-- The data of a reflection is a type. -/
theorem Payload.exists_type {p : Payload} (h : p.nativeType? = some .type) : ∃ t, p = .type t := by
  cases p with
  | scalar a => cases a <;> cases h
  | type t => exact ⟨t, rfl⟩
  | _ => cases h

/-- An instance can be an operand of a static type: its type is not poison and fits, and it carries
the data that the plugin of the type reads. No operator reads the elements of an array. -/
structure World.IsOperand (w : World σ) (s : TypeId) (id : InstanceId) : Prop where
  /-- The type is not poison. -/
  healthy : w.types.isPoison (w.heap.get id).ty = false
  /-- It fits. -/
  fits : w.types.assignable (w.heap.get id).ty s = true
  /-- The data is that of the type. -/
  equipped : ∀ t, w.types.nativeType? (w.heap.get id).ty = some t → t ≠ .anyArray →
    (w.heap.get id).payload.nativeType? = some t

/-- On operands of one runtime type, the plugin that speaks for it delivers the result of an
operator that has one on the static type. -/
theorem delivers_builtin {w : World σ} (hw : w.types.HasBuiltins) {op : BinaryOp} {s ty : TypeId}
    (hop : op.resultOn s = some ty) {l r : InstanceId} (hl : w.IsOperand s l)
    (hr : w.IsOperand s r) (hsame : (w.heap.get r).ty = (w.heap.get l).ty) :
    Delivers (((Natives.builtin : Natives σ).pluginFor w.types (w.heap.get l).ty).operator
      (.binary op l r)) w ty := by
  have hop := hw.resultOn_nativeType hop hl.healthy hl.fits
  have hr := hr.equipped
  rw [hsame] at hr
  have hl := hl.equipped
  -- Both operands have the plugin of one native type: that of a scalar, of types or of arrays.
  rw [Registry.pluginFor_builtin]
  cases hnative : w.types.nativeType? (w.heap.get l).ty with
  | none => rw [hnative] at hop; exact .identity hop Scalar.ty_ne_any
  | some t =>
    rw [hnative] at hop
    obtain ⟨v, rfl⟩ | rfl | rfl := TypeId.isNative_iff.mp (Registry.isNative_of_nativeType? hnative)
    · obtain ⟨a, ha, hav⟩ := Payload.exists_scalar (hl _ hnative v.ty_ne_anyArray)
      obtain ⟨b, hb, hbv⟩ := Payload.exists_scalar (hr _ hnative v.ty_ne_anyArray)
      rw [← hav] at hop hbv ⊢
      have hplugin : (Natives.builtin : Natives σ).plugins.lookup a.ty = some a.plugin := by
        cases a <;> rfl
      rw [Option.bind_some, hplugin]
      exact .scalar hop hbv ha hb
    · have hne : TypeId.type ≠ .anyArray := by decide
      obtain ⟨s, hs⟩ := Payload.exists_type (hl _ hnative hne)
      obtain ⟨t, ht⟩ := Payload.exists_type (hr _ hnative hne)
      exact .type hop hs ht
    · exact .identity hop Scalar.ty_ne_anyArray

/-! ## What the checker accepts -/

/-- A type without poison in its shape is not poison. -/
theorem Registry.isPoison_of_containsPoison {r : Registry} {ty : TypeId}
    (h : r.containsPoison ty = false) : r.isPoison ty = false := by
  unfold containsPoison at h
  cases hsize : r.size with
  | zero => rw [isPoison, kind, definition_of_le (by omega)]; rfl
  | succ size =>
    rw [hsize, shapeHasWithin] at h
    exact (Bool.or_eq_false_iff.mp h).1

/-- A site without poison among its inputs goes on to its own check. -/
theorem Checker.propagate_of_clean {c : Checker} {inputs : List TypeId}
    (h : ∀ ty ∈ inputs, c.types.containsPoison ty = false) :
    propagate inputs c = (none, c) := by
  have hfind : inputs.find? c.types.isPoison = none := List.find?_eq_none.mpr fun ty hty =>
    Bool.not_eq_true _ ▸ Registry.isPoison_of_containsPoison (h ty hty)
  have hany : inputs.any c.types.containsPoison = false := List.any_eq_false.mpr fun ty hty =>
    Bool.not_eq_true _ ▸ h ty hty
  unfold propagate
  simp only [bind, StateT.bind, get, getThe, MonadStateOf.get, StateT.get, pure, hfind, hany,
    Bool.false_eq_true, if_false]
  rfl

/-- An operation on two operands of one type without poison, in which the checker finds no error,
has the result that the checker gives it. -/
theorem Checker.resultOn_of_silent {c : Checker} {op : BinaryOp} {s : TypeId} {loc : Location}
    (hclean : c.types.containsPoison s = false) (h : Silent (checkBinary op s s loc) c) :
    op.resultOn s = some (checkBinary op s s loc c).1 := by
  have hpropagate : propagate [s, s] c = (none, c) :=
    propagate_of_clean (by simpa using hclean)
  unfold Silent at h
  unfold checkBinary at h ⊢
  simp only [bind, StateT.bind, hpropagate, if_true] at h ⊢
  cases hresult : op.resultOn s with
  | some result => rfl
  | none =>
    rw [hresult] at h
    exact absurd (List.append_right_eq_self.mp h) (List.cons_ne_nil _ _)

/-! ## Progress -/

/-- How an operation of two instances may fail. -/
def World.MayFail (w : World σ) (op : BinaryOp) (l r : InstanceId) (e : EvalError) : Prop :=
  if (w.heap.get l).ty = (w.heap.get r).ty then e.IsArithmetic
  else e = .operandMismatch op.symbol (w.typeName l) (w.typeName r)

/-- A step becomes a literal of a type, which is counted, or fails without having changed
anything. -/
def Reduction.Becomes (step : Reduction σ Expr) (p : Pass σ) (ty : TypeId)
    (fails : EvalError → Prop) : Prop :=
  Ends step p
    (fun e p' => p' = { p with reductions := p.reductions + 1 } ∧
      ∃ v : Scalar, v.ty = ty ∧ e = .scalar v)
    fun e p' => p' = p ∧ fails e

namespace Reduction

variable {p : Pass σ} {op : BinaryOp} {l r : InstanceId}

/-- Looking for a short circuit changes nothing, and only `&&` and `||` have one. -/
theorem shortCircuit_object (op : BinaryOp) (l : InstanceId) (p : Pass σ) :
    (∃ b, op.decidedBy? = some b ∧ shortCircuit op (.object l) p = .ok (some b) p) ∨
      shortCircuit op (.object l) p = .ok none p := by
  cases hop : op.decidedBy? with
  | none =>
    refine .inr (shortCircuit_apply ?_ ?_ _ p)
    · rintro rfl; cases hop
    · rintro rfl; cases hop
  | some b =>
    by_cases hb : p.world.heap.scalar? l = some (.bool b)
    · exact .inl ⟨b, rfl, shortCircuit_decided hop hb⟩
    · refine .inr (shortCircuit_undecided hop fun id hid => ?_)
      cases hid
      exact hb

/-- Operands of two runtime types are refused, whatever the operator is. -/
theorem binary_refuses {natives : Natives σ} (ty : TypeId)
    (hty : (p.world.heap.get l).ty ≠ (p.world.heap.get r).ty) :
    binary natives op (.object l) (.object r) ty p =
      .error (.operandMismatch op.symbol (p.world.typeName l) (p.world.typeName r)) p := by
  unfold binary
  simp only
  rw [bind_of_ok (perform_of_ok (Effect.instanceOf_apply l p.world)),
    bind_of_ok (perform_of_ok (Effect.instanceOf_apply r p.world)), if_pos hty]
  rfl

/-- On operands of one runtime type, an operation becomes what the plugin delivers. -/
theorem becomes_binary {natives : Natives σ} (ty : TypeId) {result : TypeId}
    (hty : (p.world.heap.get l).ty = (p.world.heap.get r).ty)
    (h : Delivers ((natives.pluginFor p.world.types (p.world.heap.get l).ty).operator
      (.binary op l r)) p.world result) :
    Becomes (binary natives op (.object l) (.object r) ty) p result EvalError.IsArithmetic := by
  unfold Becomes binary
  simp only
  refine Ends.bind (Ends.of_ok (perform_of_ok (Effect.instanceOf_apply l p.world)) ?_)
  refine Ends.bind (Ends.of_ok (perform_of_ok (Effect.instanceOf_apply r p.world)) ?_)
  rw [if_neg (not_not_intro hty)]
  refine Ends.bind (Ends.of_ok (pluginOf_apply natives l p) ?_)
  unfold Delivers Ends at h
  cases hstep : (natives.pluginFor p.world.types (p.world.heap.get l).ty).operator (.binary op l r)
      p.world with
  | ok answer w =>
    rw [hstep] at h
    obtain ⟨rfl, v, hv, rfl⟩ := h
    exact Ends.bind (Ends.of_ok (perform_of_ok hstep) (Ends.of_ok rfl ⟨rfl, v, hv, rfl⟩))
  | error e w =>
    rw [hstep] at h
    obtain ⟨rfl, he⟩ := h
    exact Ends.of_error (bind_of_error (perform_of_error hstep)) ⟨rfl, he⟩

end Reduction

/-- **An operator that the checker accepts is computed.** On two operands of a static type without
poison, on which the checker finds no error, the operation becomes a literal of the type that the
checker gives it. It fails only where the arithmetic has no result, or because the operands have two
runtime types. On two bound functions it never fails. -/
theorem accepted_operator_progress {c : Checker} {op : BinaryOp} {s : TypeId} {loc : Location}
    (hclean : c.types.containsPoison s = false)
    (haccepted : Checker.Silent (Checker.checkBinary op s s loc) c) {p : Pass σ}
    (hbuiltins : p.world.types.HasBuiltins) (scope : Option ScopeId) (ty : TypeId) :
    (∀ {l r : InstanceId}, p.world.IsOperand s l → p.world.IsOperand s r →
      Reduction.Becomes ((Expr.binary op (.object l) (.object r) ty).reduce .builtin scope) p
        (Checker.checkBinary op s s loc c).1 (p.world.MayFail op l r)) ∧
    ∀ (m m' : MethodRef) (f g : InstanceId), ∃ e p',
      (Expr.binary op (.function m f) (.function m' g) ty).reduce .builtin scope p = .ok e p' := by
  have hop := Checker.resultOn_of_silent hclean haccepted
  refine ⟨fun {l r} hl hr => ?_, fun m m' f g => ⟨_, _, rfl⟩⟩
  refine Ends.bind (Ends.of_ok (pure_apply (Expr.object l) p) (Ends.bind ?_))
  -- The left operand alone may decide a conjunction or a disjunction, which have the type `bool`.
  obtain ⟨b, hb, hdecided⟩ | hundecided := Reduction.shortCircuit_object op l p
  · have hbool : TypeId.bool = (Checker.checkBinary op s s loc c).1 := by
      generalize (Checker.checkBinary op s s loc c).1 = result at hop
      cases op with
      | and | or =>
        rw [BinaryOp.resultOn] at hop
        split at hop
        · exact Option.some.inj hop
        · cases hop
      | _ => cases hb
    exact Ends.of_ok hdecided (Ends.of_ok rfl ⟨rfl, .bool b, hbool, rfl⟩)
  · refine Ends.of_ok hundecided (Ends.bind (Ends.of_ok (pure_apply (Expr.object r) p) ?_))
    -- Operands of one runtime type have one plugin. Those of two types are turned down without one.
    by_cases hty : (p.world.heap.get l).ty = (p.world.heap.get r).ty
    · have hdelivers := delivers_builtin hbuiltins hop hl hr hty.symm
      refine (Reduction.becomes_binary ty hty hdelivers).mono (fun _ _ h => h) fun e p' h => ?_
      exact ⟨h.1, (if_pos hty).mpr h.2⟩
    · exact Ends.of_error (Reduction.binary_refuses ty hty) ⟨rfl, (if_neg hty).mpr rfl⟩

/-! ## A family of classes -/

/-- `Base` with two classes below it, a class below `int`, and a poison type. -/
def Registry.ofFamily : Registry :=
  let r := (insert (.plain "Base" .nominal (some .any)) initial).2
  let r := (insert (.plain "A" .nominal (some ⟨7⟩)) r).2
  let r := (insert (.plain "B" .nominal (some ⟨7⟩)) r).2
  let r := (insert (.plain "Tally" .nominal (some .int)) r).2
  (newPoison r).2

/-- The built-in types are beside the family. -/
theorem Registry.hasBuiltins_ofFamily : ofFamily.HasBuiltins :=
  hasBuiltins_initial.extend
    (((((Extends.insert _).trans (.insert _)).trans (.insert _)).trans (.insert _)).trans .newPoison)

/-- Two tallies that the host has handed over. -/
def World.ofTallies : World Unit :=
  (Effect.materialize (.value ⟨10⟩ (.scalar (.int 3)))).after
    ((Effect.materialize (.value ⟨10⟩ (.scalar (.int 2)))).after (.ofTypes .ofFamily ()))

/-- Two tallies are added as the integers that they extend. -/
theorem accepted_operator_progress_tallies :
    let c := Checker.ofTypes .ofFamily
    let loc : Location := ⟨none, ⟨0, 1⟩⟩
    let p : Pass Unit := ⟨.ofTallies, 0⟩
    c.types.containsPoison .int = false ∧
      Checker.Silent (Checker.checkBinary .add .int .int loc) c ∧ p.world.types.HasBuiltins ∧
      p.world.IsOperand .int ⟨0⟩ ∧ p.world.IsOperand .int ⟨1⟩ ∧
      Reduction.Becomes ((Expr.binary .add (.object ⟨0⟩) (.object ⟨1⟩) .int).reduce .builtin none) p
        (Checker.checkBinary .add .int .int loc c).1 (p.world.MayFail .add ⟨0⟩ ⟨1⟩) := by
  have hnative : Registry.ofFamily.nativeType? ⟨10⟩ = some .int := by decide +kernel
  have hoperand (id : InstanceId) (v : Int64)
      (h : World.ofTallies.heap.get id = .ofPayload ⟨10⟩ (.scalar (.int v))) :
      World.ofTallies.IsOperand .int id := by
    refine ⟨?_, ?_, ?_⟩ <;> rw [h]
    · exact show Registry.ofFamily.isPoison ⟨10⟩ = false by decide +kernel
    · exact show Registry.ofFamily.assignable ⟨10⟩ .int = true by decide +kernel
    · intro t ht _
      obtain rfl : TypeId.int = t := Option.some.inj (hnative.symm.trans ht)
      rfl
  have hclean : Registry.ofFamily.containsPoison .int = false := by decide +kernel
  have haccepted : Checker.Silent (Checker.checkBinary .add .int .int ⟨none, ⟨0, 1⟩⟩)
      (.ofTypes .ofFamily) := rfl
  have hl := hoperand ⟨0⟩ 2 rfl
  have hr := hoperand ⟨1⟩ 3 rfl
  have hprogress := accepted_operator_progress hclean haccepted (p := ⟨World.ofTallies, 0⟩)
    Registry.hasBuiltins_ofFamily none .int
  exact ⟨hclean, haccepted, Registry.hasBuiltins_ofFamily, hl, hr, hprogress.1 hl hr⟩

/-- An object of each class of the family that extends another, and a value of the poison type. -/
def World.ofFamily : World Unit :=
  (Effect.materialize (.value ⟨11⟩ .none)).after
    ((Effect.construct .builtin ⟨10⟩ []).after
      ((Effect.construct .builtin ⟨9⟩ []).after
        ((Effect.construct .builtin ⟨8⟩ []).after (.ofTypes .ofFamily ()))))

/-- An operation of two instances fails with an error. -/
def World.Fails (w : World σ) (op : BinaryOp) (l r : InstanceId) (error : EvalError) : Prop :=
  Ends ((Expr.binary op (.object l) (.object r) .bool).reduce .builtin none) ⟨w, 0⟩
    (fun _ _ => False) fun e _ => e = error

instance {w : World σ} {op : BinaryOp} {l r : InstanceId} {error : EvalError} :
    Decidable (w.Fails op l r error) := inferInstanceAs (Decidable (Ends _ _ _ _))

/-- Operations that the checker accepts on a static type, on operands whose types fit it, and that
are not computed: objects of two siblings are compared, an object below `int` that has no integer is
added, so is a value of a poison type, and a method is compared with itself. -/
theorem accepted_operators_stuck :
    let w := World.ofFamily
    let c := Checker.ofTypes w.types
    let loc : Location := ⟨none, ⟨0, 1⟩⟩
    let method : MethodRef := ⟨.any, 0⟩
    let methodTy : TypeId := (Registry.methodType method w.types).1
    (c.types.containsPoison ⟨7⟩ = false ∧ Checker.Silent (Checker.checkBinary .eq ⟨7⟩ ⟨7⟩ loc) c ∧
        w.types.assignable (w.heap.get ⟨0⟩).ty ⟨7⟩ = true ∧
        w.types.assignable (w.heap.get ⟨1⟩).ty ⟨7⟩ = true ∧
        w.Fails .eq ⟨0⟩ ⟨1⟩ (.operandMismatch "==" "A" "B")) ∧
      (c.types.containsPoison .int = false ∧
        Checker.Silent (Checker.checkBinary .add .int .int loc) c ∧
        w.types.assignable (w.heap.get ⟨2⟩).ty .int = true ∧
        w.Fails .add ⟨2⟩ ⟨2⟩ (.invalidPayload "Tally" "int") ∧
        w.types.assignable (w.heap.get ⟨3⟩).ty .int = true ∧
        w.Fails .add ⟨3⟩ ⟨3⟩ (.unsupportedOperator "+" "<error>")) ∧
      c.types.containsPoison methodTy = false ∧
        Checker.Silent (Checker.checkBinary .eq methodTy methodTy loc) c ∧
        let equality : Expr := .binary .eq (.function method ⟨0⟩) (.function method ⟨0⟩) .bool
        equality.reduce .builtin none ⟨w, 0⟩ = .ok equality ⟨w, 0⟩ := by
  refine ⟨⟨?_, ?_, ?_, ?_, ?_⟩, ⟨?_, ?_, ?_, ?_, ?_, ?_⟩, ?_, ?_, rfl⟩
  all_goals decide +kernel

end ObjectGraph
