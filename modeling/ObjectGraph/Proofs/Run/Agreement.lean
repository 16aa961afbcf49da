import ObjectGraph.Proofs.Run.Operators
import ObjectGraph.Proofs.Types.Hierarchy

/-!
# The two tables of operators

Which operators a type has is written down twice: in the checker, as a table of types, and in the
runtime, in the plugin that is found along the type's lineage. The two tables agree on operands
that are exactly of one type (`operators_agree`). Where the checker has a result type, the plugin
delivers a literal of this type, unless the arithmetic has no result. Where the checker has none,
the plugin turns the operands down.

Both sides are compared with the result that `BinaryOp.resultOn` and `UnaryOp.resultOn` expect: what
the check does with it is `Foresees`, and what the plugin does is `Follows`.
-/

namespace ObjectGraph

variable {σ : Type}

/-- Errors by which a plugin turns operands down. -/
inductive EvalError.IsRefusal : EvalError → Prop where
  /-- The type does not have the operator. -/
  | unsupportedOperator (op ty : String) : IsRefusal (.unsupportedOperator op ty)
  /-- An operand does not carry the data of its type. -/
  | invalidPayload (ty expected : String) : IsRefusal (.invalidPayload ty expected)

/-- An operation turns its operands down. -/
def Refuses (step : Effect σ (Option Expr)) (w : World σ) : Prop :=
  Ends step w (fun _ _ => False) fun e _ => e.IsRefusal

/-- An operation does what is expected: it delivers a literal of the result type, or turns its
operands down if there is none. -/
def Follows (step : Effect σ (Option Expr)) (w : World σ) : Option TypeId → Prop
  | some ty => Delivers step w ty
  | none => Refuses step w

namespace Checker

/-- A check does what is expected: it answers the result type and does nothing else, or records an
error if there is none. -/
def Foresees (check : Checking TypeId) (c : Checker) : Option TypeId → Prop
  | some ty => check c = (ty, c)
  | none => ¬ Silent check c

variable {c : Checker} {t : TypeId}

/-- A check that answers the result type if one is expected, and records an error if none is. -/
theorem foresees_of_eq {check : Checking TypeId} {expected : Option TypeId} {e : TypeError}
    (hcheck : check c = match expected with
      | some ty => (ty, c)
      | none => report e c) : Foresees check c expected := by
  cases expected with
  | some ty => exact hcheck
  | none =>
    -- One report makes the list of errors longer, so the check is not silent.
    unfold Foresees Silent
    rw [hcheck]
    exact fun h => List.cons_ne_nil _ _ (List.append_right_eq_self.mp h)

/-- The check of a binary operation on operands of one type. -/
theorem foresees_checkBinary (op : BinaryOp) (hclean : c.types.containsPoison t = false)
    (loc : Location) : Foresees (checkBinary op t t loc) c (op.resultOn t) := by
  have hpropagate : propagate [t, t] c = (none, c) := propagate_of_clean (by simpa using hclean)
  refine foresees_of_eq
    (e := .invalidOperator op.symbol (c.types.name t) (some (c.types.name t)) loc) ?_
  unfold checkBinary
  simp only [bind, StateT.bind, hpropagate, if_true]
  cases op.resultOn t <;> rfl

/-- The check of a negation. -/
theorem foresees_checkUnary {op : UnaryOp} (hop : op ≠ .typeOf)
    (hclean : c.types.containsPoison t = false) (loc : Location) :
    Foresees (checkUnary op t loc) c (op.resultOn t) := by
  have hpropagate : propagate [t] c = (none, c) := propagate_of_clean (by simpa using hclean)
  refine foresees_of_eq (e := .invalidOperator op.name (c.types.name t) none loc) ?_
  unfold checkUnary
  rw [if_neg hop]
  simp only [bind, StateT.bind, hpropagate]
  cases op.resultOn t <;> rfl

end Checker

/-! ## What is turned down -/

namespace Refuses

variable {step : Effect σ (Option Expr)} {w : World σ} {l r x : InstanceId} {ty : TypeId}
  {op : BinaryOp}

/-- Only the outcome of the step matters. -/
theorem congr {step' : Effect σ (Option Expr)} (h : Refuses step w) (hs : step' w = step w) :
    Refuses step' w :=
  Ends.congr h hs

/-- An operator that the type does not have. -/
theorem unsupported (operation : Operation) : Refuses (Effect.unsupported operation) w :=
  .unsupportedOperator _ _

/-- The operators that every instance has are no others. -/
theorem identity (hop : op.resultOn ty = none) :
    Refuses (Effect.identityOperator (.binary op l r)) w := by
  cases op with
  | eq | ne => cases hop
  | _ => exact unsupported _

/-- The operators of integers. -/
theorem int (hop : op.resultOn .int = none) {a b : Int64}
    (ha : (w.heap.get l).payload = .scalar (.int a))
    (hb : (w.heap.get r).payload = .scalar (.int b)) :
    Refuses (Plugin.intOperator (.binary op l r)) w := by
  have hread := Delivers.reads (intOf_apply ha) (intOf_apply hb)
  cases op with
  | and | or => exact (unsupported (.binary _ l r)).congr (hread _)
  | _ => cases hop

/-- The operators of floats. -/
theorem float (hop : op.resultOn .float = none) {a b : Float}
    (ha : (w.heap.get l).payload = .scalar (.float a))
    (hb : (w.heap.get r).payload = .scalar (.float b)) :
    Refuses (Plugin.floatOperator (.binary op l r)) w := by
  have hread := Delivers.reads (floatOf_apply ha) (floatOf_apply hb)
  have hcompares (op : BinaryOp) (h : ∀ ordering, op.ofOrdering ordering = none)
      (h' : op.isComparison = false) : op.onFloats a b = none := by
    unfold BinaryOp.onFloats
    cases floatOrdering? a b with
    | some ordering => exact h ordering
    | none => simp only [h', Bool.false_eq_true, if_false]
  cases op with
  | and =>
    refine (unsupported (.binary .and l r)).congr ((hread _).trans ?_)
    simp only [hcompares .and (fun _ => rfl) rfl, Plugin.comparison]
  | or =>
    refine (unsupported (.binary .or l r)).congr ((hread _).trans ?_)
    simp only [hcompares .or (fun _ => rfl) rfl, Plugin.comparison]
  | _ => cases hop

/-- The operators of texts. -/
theorem string (hop : op.resultOn .string = none) {a b : String}
    (ha : (w.heap.get l).payload = .scalar (.string a))
    (hb : (w.heap.get r).payload = .scalar (.string b)) :
    Refuses (Plugin.stringOperator (.binary op l r)) w := by
  have hread := Delivers.reads (stringOf_apply ha) (stringOf_apply hb)
  cases op with
  | sub | mul | div | rem | and | or => exact (unsupported (.binary _ l r)).congr (hread _)
  | _ => cases hop

/-- The operators of truth values. -/
theorem bool (hop : op.resultOn .bool = none) {a b : Bool}
    (ha : (w.heap.get l).payload = .scalar (.bool a))
    (hb : (w.heap.get r).payload = .scalar (.bool b)) :
    Refuses (Plugin.boolOperator (.binary op l r)) w := by
  have hread := Delivers.reads (boolOf_apply ha) (boolOf_apply hb)
  cases op with
  | and | or | eq | ne => cases hop
  | _ => exact (unsupported (.binary _ l r)).congr (hread _)

/-- The operators of scalars of one type. -/
theorem scalar {a b : Scalar} (hop : op.resultOn a.ty = none) (hab : b.ty = a.ty)
    (ha : (w.heap.get l).payload = .scalar a) (hb : (w.heap.get r).payload = .scalar b) :
    Refuses (a.plugin.operator (.binary op l r)) w := by
  cases a with
  | int a =>
    cases b with
    | int b => exact int hop ha hb
    | _ => cases hab
  | float a =>
    cases b with
    | float b => exact float hop ha hb
    | _ => cases hab
  | string a =>
    cases b with
    | string b => exact string hop ha hb
    | _ => cases hab
  | bool a =>
    cases b with
    | bool b => exact bool hop ha hb
    | _ => cases hab

/-- The operators of reflections. -/
theorem type (hop : op.resultOn .type = none) :
    Refuses (Plugin.typeOperator (.binary op l r)) w := by
  cases op with
  | eq | ne => cases hop
  | _ => exact unsupported _

end Refuses

/-! ## What the plugins do -/

namespace Follows

variable {w : World σ} {l r x : InstanceId}

/-- The operators of scalars of one type. -/
theorem scalar (op : BinaryOp) {a b : Scalar} (hab : b.ty = a.ty)
    (ha : (w.heap.get l).payload = .scalar a) (hb : (w.heap.get r).payload = .scalar b) :
    Follows (a.plugin.operator (.binary op l r)) w (op.resultOn a.ty) := by
  cases hresult : op.resultOn a.ty with
  | some ty => exact Delivers.scalar hresult hab ha hb
  | none => exact Refuses.scalar hresult hab ha hb

/-- The operators of reflections. -/
theorem type (op : BinaryOp) {s t : TypeId} (hs : (w.heap.get l).payload = .type s)
    (ht : (w.heap.get r).payload = .type t) :
    Follows (Plugin.typeOperator (.binary op l r)) w (op.resultOn .type) := by
  cases hresult : op.resultOn .type with
  | some ty => exact Delivers.type hresult hs ht
  | none => exact Refuses.type hresult

/-- The operators that every instance has are those of a type that is not a scalar's. -/
theorem identity (op : BinaryOp) {t : TypeId} (ht : ∀ v : Scalar, v.ty ≠ t) :
    Follows (Effect.identityOperator (.binary op l r)) w (op.resultOn t) := by
  cases hresult : op.resultOn t with
  | some ty => exact Delivers.identity hresult ht
  | none => exact Refuses.identity hresult

/-- The negations of scalars. -/
theorem unary_scalar {op : UnaryOp} (hop : op ≠ .typeOf) {a : Scalar}
    (ha : (w.heap.get x).payload = .scalar a) :
    Follows (a.plugin.operator (.unary op x)) w (op.resultOn a.ty) := by
  cases op with
  | typeOf => exact absurd rfl hop
  | neg =>
    cases a with
    | int a => exact (Delivers.checked _ _).congr (bind_of_ok (intOf_apply ha))
    | float a => exact Delivers.literal (.float (-a)) (bind_of_ok (floatOf_apply ha))
    | string _ | bool _ => exact Refuses.unsupported _
  | not =>
    cases a with
    | bool a => exact Delivers.literal (.bool (!a)) (bind_of_ok (boolOf_apply ha))
    | int _ | float _ | string _ => exact Refuses.unsupported _

/-- No type but a scalar's has a negation. -/
theorem unary_identity {op : UnaryOp} (hop : op ≠ .typeOf) {t : TypeId}
    (ht : ∀ v : Scalar, v.ty ≠ t) :
    Follows (Effect.identityOperator (.unary op x)) w (op.resultOn t) := by
  have hint : ¬ t = .int := fun h => ht (.int 0) h.symm
  have hfloat : ¬ t = .float := fun h => ht (.float 0) h.symm
  have hbool : ¬ t = .bool := fun h => ht (.bool false) h.symm
  cases op with
  | typeOf => exact absurd rfl hop
  | neg =>
    rw [UnaryOp.resultOn, if_neg (not_or.mpr ⟨hint, hfloat⟩)]
    exact Refuses.unsupported _
  | not =>
    rw [UnaryOp.resultOn, if_neg hbool]
    exact Refuses.unsupported _

end Follows

/-! ## Instances of one type -/

/-- The built-in types have the built-in plugins, and array types have none of their own. -/
structure Natives.Standard (natives : Natives σ) (r : Registry) : Prop where
  /-- The built-in types. -/
  builtin : ∀ {ty : TypeId}, ty.isBuiltin = true →
    natives.plugins.lookup ty = (Natives.builtin : Natives σ).plugins.lookup ty
  /-- The array types. -/
  arrays : ∀ {ty element : TypeId}, r.kind ty = .array element → ty ≠ .anyArray →
    natives.plugins.lookup ty = none

/-- The data that the runtime gives to the instances of a type. -/
inductive Payload.Suits (natives : Natives σ) (r : Registry) : Payload → TypeId → Prop
  /-- A scalar is of its own type. -/
  | scalar (v : Scalar) : Suits natives r (.scalar v) v.ty
  /-- A reflection may be of any type. -/
  | type (ty : TypeId) : Suits natives r (.type ty) .type
  /-- An array may have any elements. -/
  | array {t element : TypeId} (elements : List Expr) (hkind : r.kind t = .array element) :
      Suits natives r (.array elements) t
  /-- An object of a type without a plugin is plain. -/
  | plain {t : TypeId} (h : natives.hasPlugin r t = false) : Suits natives r .none t

/-- An instance is exactly of a type. -/
structure World.IsExactly (natives : Natives σ) (w : World σ) (t : TypeId) (id : InstanceId) :
    Prop where
  /-- It has the type. -/
  ty : (w.heap.get id).ty = t
  /-- It carries data of the type. -/
  suits : (w.heap.get id).payload.Suits natives w.types t

/-- The built-in plugins are the standard ones. -/
theorem Natives.standard_builtin {r : Registry} (hb : r.HasBuiltins) :
    (Natives.builtin : Natives σ).Standard r where
  builtin _ := rfl
  arrays {ty element} hkind hne := by
    have hnative : ty.isNative = false := by
      refine Bool.eq_false_iff.mpr fun h => ?_
      have hplace := hb.definition (Bool.and_eq_true_iff.mp h).1
      rw [Registry.kind, hplace] at hkind
      obtain ⟨v, rfl⟩ | rfl | rfl := TypeId.isNative_iff.mp h
      · cases v <;> cases hkind
      · cases hkind
      · exact hne rfl
    exact Option.isNone_iff_eq_none.mp (by
      rw [← Option.not_isSome, Natives.isSome_lookup_builtin, hnative]; rfl)

section Standard

variable {natives : Natives σ} {types : Registry} {t : TypeId} {p : Payload}
variable (hn : natives.Standard types) (hr : types.Rooted)

include hn

/-- The scalar types have their plugins. -/
theorem Natives.Standard.hasScalars : natives.HasScalars :=
  ⟨hn.builtin rfl, hn.builtin rfl, hn.builtin rfl, hn.builtin rfl⟩

include hr

/-- The root of all classes has no plugin. -/
theorem Natives.Standard.hasPlugin_any : natives.hasPlugin types .any = false := by
  have hroot : types.parent .any = none := hr.builtins.definition_any.1
  have hlineage : types.lineage .any = [.any] := by
    rw [Registry.lineage]
    cases types.size with
    | zero => rfl
    | succ size => rw [Registry.ancestorsWithin, hroot]
  rw [Natives.hasPlugin, Natives.nearest?, hlineage, List.findSome?_cons, hn.builtin rfl]
  rfl

/-- Array types have the built-in plugin of arrays. -/
theorem Natives.Standard.pluginFor_array {element : TypeId}
    (hkind : types.kind t = .array element) : natives.pluginFor types t = .array := by
  have harray : natives.plugins.lookup .anyArray = some .array := hn.builtin rfl
  by_cases ht : t = .anyArray
  · subst ht
    exact Natives.pluginFor_of_lookup harray types
  · obtain ⟨size, hsize⟩ : ∃ size, types.size = size + 1 :=
      Nat.exists_eq_add_of_le' (Nat.le_trans (by decide) hr.builtins.size)
    simp only [Natives.pluginFor, Natives.nearest?, Registry.lineage, hsize,
      Registry.ancestorsWithin, hr.arrays hkind ht, List.findSome?_cons, hn.arrays hkind ht, harray,
      Option.getD_some]

/-- There are instances of exactly the built-in types, the array types and the types without a
plugin. -/
theorem Natives.Standard.exists_suits_iff :
    (∃ p : Payload, p.Suits natives types t) ↔
      t.isBuiltin = true ∨ (∃ element, types.kind t = .array element) ∨
        natives.hasPlugin types t = false := by
  constructor
  · rintro ⟨p, hp⟩
    cases hp with
    | scalar v => exact .inl (by cases v <;> rfl)
    | type ty => exact .inl rfl
    | array elements hkind => exact .inr (.inl ⟨_, hkind⟩)
    | plain h => exact .inr (.inr h)
  · rintro (hbuiltin | ⟨element, hkind⟩ | hplain)
    · -- Of `any` there are plain instances, of the other builtin types those with data.
      by_cases hany : t = .any
      · subst hany
        exact ⟨_, .plain (hn.hasPlugin_any hr)⟩
      · have hnative : t.isNative = true := by
          rw [TypeId.isNative, hbuiltin, Bool.true_and]
          exact decide_eq_true hany
        obtain ⟨v, rfl⟩ | rfl | rfl := TypeId.isNative_iff.mp hnative
        · exact ⟨_, .scalar v⟩
        · exact ⟨_, .type .any⟩
        · have hkind : types.kind .anyArray = .array .any := by
            rw [Registry.kind, hr.builtins.definition rfl]
            rfl
          exact ⟨_, .array [] hkind⟩
    · exact ⟨_, .array [] hkind⟩
    · exact ⟨_, .plain hplain⟩

/-- What can be an instance of exactly a type: a scalar, a reflection, or something that only has
the operators of every instance. -/
theorem Payload.Suits.cases (h : p.Suits natives types t) :
    (∃ a, p = .scalar a ∧ a.ty = t) ∨ (t = .type ∧ ∃ s, p = .type s) ∨
      t ≠ .type ∧ (∀ v : Scalar, v.ty ≠ t) ∧
        (natives.pluginFor types t).operator = Effect.identityOperator := by
  cases h with
  | scalar a => exact .inl ⟨a, rfl, rfl⟩
  | type s => exact .inr (.inl ⟨rfl, s, rfl⟩)
  | array elements hkind =>
    -- An array type is no class, and the types of scalars and reflections are.
    have hne : ∀ {ty : TypeId}, ty.isBuiltin = true →
        (Builtin.defs.getD ty.index default).kind = .nominal → ty ≠ t := by
      rintro ty hbuiltin hnominal rfl
      rw [Registry.kind, hr.builtins.definition hbuiltin, hnominal] at hkind
      cases hkind
    refine .inr (.inr ⟨(hne rfl rfl).symm, fun v => ?_, ?_⟩)
    · exact hne (by cases v <;> rfl) (by cases v <;> rfl)
    · rw [hn.pluginFor_array hr hkind]
      rfl
  | plain hplain =>
    -- A type with a plugin of its own is not one without.
    have hne : ∀ {ty : TypeId} {plugin : Plugin σ}, natives.plugins.lookup ty = some plugin →
        ty ≠ t := by
      rintro ty plugin hplugin rfl
      rw [Natives.hasPlugin, Natives.nearest?, Registry.lineage, List.findSome?_cons, hplugin]
        at hplain
      cases hplain
    refine .inr (.inr ⟨(hne (hn.builtin rfl)).symm, fun v => ?_, ?_⟩)
    · cases v with
      | int => exact hne hn.hasScalars.int
      | float => exact hne hn.hasScalars.float
      | string => exact hne hn.hasScalars.string
      | bool => exact hne hn.hasScalars.bool
    · rw [Natives.hasPlugin, Option.isSome_eq_false_iff, Option.isNone_iff_eq_none] at hplain
      rw [Natives.pluginFor, hplain]
      rfl

end Standard

/-! ## Agreement -/

section Agreement

variable {natives : Natives σ} {w : World σ} {c : Checker} {t : TypeId}

/-- A check and a step of the runtime agree: the check records no error exactly if the step does
not turn its operands down, and a literal that the step answers has the type that the check
answers. -/
def Agree (check : Checking TypeId) (c : Checker) (step : Effect σ (Option Expr)) (w : World σ) :
    Prop :=
  (Checker.Silent check c ↔ ¬ Refuses step w) ∧
    ∀ v w', step w = .ok (some (.scalar v)) w' → v.ty = (check c).1

/-- Where both do what is expected they agree. -/
theorem agree_of_foresees {check : Checking TypeId} {step : Effect σ (Option Expr)}
    {expected : Option TypeId} (hcheck : Checker.Foresees check c expected)
    (hstep : Follows step w expected) : Agree check c step w := by
  cases expected with
  | some ty =>
    have hdelivers : Delivers step w ty := hstep
    have hcheck : check c = (ty, c) := hcheck
    have hsilent : Checker.Silent check c := by
      unfold Checker.Silent
      rw [hcheck]
    refine ⟨⟨fun _ hrefuses => ?_, fun _ => hsilent⟩, fun v w' hliteral => ?_⟩
    · -- An error of the arithmetic is none by which operands are turned down.
      obtain ⟨e, w', hresult, hrefusal⟩ := Ends.exists_error hrefuses
      obtain ⟨-, harithmetic⟩ := Ends.error hdelivers hresult
      cases hrefusal <;> cases harithmetic
    · obtain ⟨-, value, hty, hvalue⟩ := Ends.ok hdelivers hliteral
      obtain rfl := Expr.scalar.inj (Option.some.inj hvalue)
      rw [hcheck]
      exact hty
  | none =>
    have hrefuses : Refuses step w := hstep
    refine ⟨⟨fun hsilent => absurd hsilent hcheck, fun hnot => absurd hrefuses hnot⟩,
      fun v w' hliteral => ?_⟩
    exact (Ends.ok hrefuses hliteral).elim

/-- The plugin does with two instances of a type what is expected of a binary operator. -/
theorem follows_binary (hn : natives.Standard w.types) (hr : w.types.Rooted) (op : BinaryOp)
    {l r : InstanceId} (hl : w.IsExactly natives t l) (hr' : w.IsExactly natives t r) :
    Follows ((natives.pluginFor w.types t).operator (.binary op l r)) w (op.resultOn t) := by
  rcases hl.suits.cases hn hr with ⟨a, ha, rfl⟩ | ⟨rfl, s, hs⟩ | ⟨-, hne, hplugin⟩
  · rcases hr'.suits.cases hn hr with ⟨b, hb, hab⟩ | ⟨htype, -⟩ | ⟨-, hne, -⟩
    · rw [hn.hasScalars.pluginFor]
      exact .scalar op hab ha hb
    · cases a <;> cases htype
    · exact absurd rfl (hne a)
  · have hplugin : natives.pluginFor w.types .type = .type :=
      Natives.pluginFor_of_lookup (hn.builtin rfl) _
    rcases hr'.suits.cases hn hr with ⟨b, -, hb⟩ | ⟨-, s', hs'⟩ | ⟨hne, -⟩
    · cases b <;> cases hb
    · rw [hplugin]
      exact .type op hs hs'
    · exact absurd rfl hne
  · rw [hplugin]
    exact .identity op hne

/-- The plugin does with an instance of a type what is expected of a negation. -/
theorem follows_unary (hn : natives.Standard w.types) (hr : w.types.Rooted) {op : UnaryOp}
    (hop : op ≠ .typeOf) {x : InstanceId} (hx : w.IsExactly natives t x) :
    Follows ((natives.pluginFor w.types t).operator (.unary op x)) w (op.resultOn t) := by
  rcases hx.suits.cases hn hr with ⟨a, ha, rfl⟩ | ⟨rfl, -⟩ | ⟨-, hne, hplugin⟩
  · rw [hn.hasScalars.pluginFor]
    exact .unary_scalar hop ha
  · have hplugin : natives.pluginFor w.types .type = .type :=
      Natives.pluginFor_of_lookup (hn.builtin rfl) _
    rw [hplugin]
    have hne : ∀ v : Scalar, v.ty ≠ .type := by
      intro v h
      cases v <;> cases h
    exact Follows.unary_identity hop hne
  · rw [hplugin]
    exact .unary_identity hop hne

/-- **The two tables of operators agree.** On operands that are exactly of one type without poison,
the check of an operator records no error exactly if the plugin that speaks for the type does not
turn the operands down, and a literal that the plugin answers has the type that the check answers.
There are such operands of the built-in types, the array types and the types without a plugin. -/
theorem operators_agree {admits : Registry → TypeId → ClassBody → Prop}
    (hassembled : Registry.Assembled admits w.types) (hn : natives.Standard w.types)
    (htypes : c.types = w.types) (hclean : w.types.containsPoison t = false) (loc : Location) :
    ((∃ p : Payload, p.Suits natives w.types t) ↔
      t.isBuiltin = true ∨ (∃ element, w.types.kind t = .array element) ∨
        natives.hasPlugin w.types t = false) ∧
    (∀ (op : BinaryOp) (l r : InstanceId), w.IsExactly natives t l → w.IsExactly natives t r →
      Agree (Checker.checkBinary op t t loc) c
        ((natives.pluginFor w.types t).operator (.binary op l r)) w) ∧
    ∀ (op : UnaryOp) (x : InstanceId), op ≠ .typeOf → w.IsExactly natives t x →
      Agree (Checker.checkUnary op t loc) c
        ((natives.pluginFor w.types t).operator (.unary op x)) w := by
  have hr := hassembled.rooted
  have hclean' : c.types.containsPoison t = false := by rw [htypes]; exact hclean
  refine ⟨hn.exists_suits_iff hr, fun op l r hl hr' => ?_, fun op x hop hx => ?_⟩
  · exact agree_of_foresees (Checker.foresees_checkBinary op hclean' loc)
      (follows_binary hn hr op hl hr')
  · exact agree_of_foresees (Checker.foresees_checkUnary hop hclean' loc)
      (follows_unary hn hr hop hx)

end Agreement

/-- One and zero. -/
def World.ofDigits : World Unit :=
  (Effect.materialize (.value .int (.scalar (.int 0)))).after
    ((Effect.materialize (.value .int (.scalar (.int 1)))).after (.ofTypes .initial ()))

/-- A division by zero is accepted and not turned down, although it has no result. A conjunction of
integers is reported, and turned down. -/
theorem operators_agree_digits :
    let w := World.ofDigits
    let c := Checker.ofTypes .initial
    let loc : Location := ⟨none, ⟨0, 1⟩⟩
    w.IsExactly .builtin .int ⟨0⟩ ∧ w.IsExactly .builtin .int ⟨1⟩ ∧
      (Agree (Checker.checkBinary .div .int .int loc) c
          (((Natives.builtin).pluginFor w.types .int).operator (.binary .div ⟨0⟩ ⟨1⟩)) w ∧
        Checker.Silent (Checker.checkBinary .div .int .int loc) c ∧
        Ends (((Natives.builtin).pluginFor w.types .int).operator (.binary .div ⟨0⟩ ⟨1⟩)) w
          (fun _ _ => False) fun e _ => e = .divisionByZero) ∧
      Agree (Checker.checkBinary .and .int .int loc) c
          (((Natives.builtin).pluginFor w.types .int).operator (.binary .and ⟨0⟩ ⟨1⟩)) w ∧
        ¬ Checker.Silent (Checker.checkBinary .and .int .int loc) c := by
  intro w c loc
  have hdigit : ∀ {id : InstanceId} {v : Int64},
      World.ofDigits.heap.get id = .ofPayload .int (.scalar (.int v)) →
      World.ofDigits.IsExactly .builtin .int id := by
    intro id v h
    refine ⟨by rw [h]; rfl, ?_⟩
    rw [h]
    exact .scalar (.int v)
  have hone : w.IsExactly .builtin .int ⟨0⟩ := hdigit (v := 1) rfl
  have hzero : w.IsExactly .builtin .int ⟨1⟩ := hdigit (v := 0) rfl
  have hassembled : Registry.Assembled Registry.Admits w.types := .refl
  have hstandard : (Natives.builtin : Natives Unit).Standard w.types :=
    Natives.standard_builtin Registry.hasBuiltins_initial
  obtain ⟨-, hbinary, -⟩ :=
    operators_agree (c := c) hassembled hstandard rfl (t := .int) (by decide +kernel) loc
  exact ⟨hone, hzero, ⟨hbinary .div ⟨0⟩ ⟨1⟩ hone hzero, by decide +kernel, by decide +kernel⟩,
    hbinary .and ⟨0⟩ ⟨1⟩ hone hzero, by decide +kernel⟩

end ObjectGraph
