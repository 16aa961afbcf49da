import Mathlib.Data.Fintype.Card
import Mathlib.Logic.Relation
import Mathlib.Data.Set.Finite.Basic
import ObjectGraph.Check.Checker
import ObjectGraph.Proofs.Formula.Scalars

/-!
# Recursive evaluation of properties

What the properties of a class are, computed the way one would read them: a property is the value
of its initializer, in which every other property stands for its own value. `Sheet.property`
evaluates a property that way down to a given depth, without a heap and without sweeps. A property
has a value if some depth is enough (`Sheet.value?`), and the least such depth is its rank.

In a well-typed sheet every property has a value exactly if the properties do not depend on each
other in a circle and no depth meets a division by zero, an overflow or operands of two types
(`Sheet.total_iff`). Typing does not exclude the last: values of type `any` may be compared, and those
may be of two types. Where no operand is of type `any`, there is no such fault
(`Sheet.WellTyped.isMatching`).
-/

namespace ObjectGraph

/-- The properties of a class with the values that its parameters have been given. -/
structure Sheet where
  /-- The properties, in order. -/
  properties : List Property
  /-- The parameters, in order. -/
  params : List Param
  /-- The parameters' values. -/
  args : List Scalar

/-- The value of an expression, given the values of parameters and variables and of properties. -/
def Expr.evaluate (param : String → Option Scalar) (property : String → Except Fault Scalar) :
    Expr → Except Fault Scalar
  | .scalar v => .ok v
  | .param name _ | .variable name _ =>
    match param name with
    | some v => .ok v
    | none => .error .unknownName
  | .member (.this _) name _ => property name
  | .binary op lhs rhs _ => do
    let a ← lhs.evaluate param property
    let b ← rhs.evaluate param property
    op.onScalars a b
  | .unary op operand _ => do op.onScalar (← operand.evaluate param property)
  | _ => .error .mistyped

section Operations

variable {param : String → Option Scalar} {property : String → Except Fault Scalar} {ty : TypeId}

/-- A binary operation comes to a fault of an operand, or to what the operator makes of two
values. -/
theorem Expr.evaluate_binary_cases (op : BinaryOp) (lhs rhs : Expr) :
    (∃ fault, lhs.evaluate param property = .error fault ∧
        (Expr.binary op lhs rhs ty).evaluate param property = .error fault) ∨
      (∃ fault, rhs.evaluate param property = .error fault ∧
        (Expr.binary op lhs rhs ty).evaluate param property = .error fault) ∨
      ∃ a b, lhs.evaluate param property = .ok a ∧ rhs.evaluate param property = .ok b ∧
        (Expr.binary op lhs rhs ty).evaluate param property = op.onScalars a b := by
  rw [Expr.evaluate]
  cases lhs.evaluate param property with
  | error fault => exact .inl ⟨fault, rfl, rfl⟩
  | ok a =>
    cases rhs.evaluate param property with
    | error fault => exact .inr (.inl ⟨fault, rfl, rfl⟩)
    | ok b => exact .inr (.inr ⟨a, b, rfl, rfl, rfl⟩)

/-- A unary operation comes to a fault of its operand, or to what the operator makes of its value. -/
theorem Expr.evaluate_unary_cases (op : UnaryOp) (operand : Expr) :
    (∃ fault, operand.evaluate param property = .error fault ∧
        (Expr.unary op operand ty).evaluate param property = .error fault) ∨
      ∃ a, operand.evaluate param property = .ok a ∧
        (Expr.unary op operand ty).evaluate param property = op.onScalar a := by
  rw [Expr.evaluate]
  cases operand.evaluate param property with
  | error fault => exact .inl ⟨fault, rfl, rfl⟩
  | ok a => exact .inr ⟨a, rfl, rfl⟩

/-- A binary operation has a value if its operands have and the operator gives one for them. -/
theorem Expr.evaluate_binary_eq_ok {op : BinaryOp} {lhs rhs : Expr} {v : Scalar} :
    (Expr.binary op lhs rhs ty).evaluate param property = .ok v ↔
      ∃ a, lhs.evaluate param property = .ok a ∧
        ∃ b, rhs.evaluate param property = .ok b ∧ op.onScalars a b = .ok v := by
  constructor
  · intro h
    obtain ⟨fault, -, hfault⟩ | ⟨fault, -, hfault⟩ | ⟨a, b, hl, hr, hop⟩ :=
      Expr.evaluate_binary_cases op lhs rhs
    · cases h.symm.trans hfault
    · cases h.symm.trans hfault
    · exact ⟨a, hl, b, hr, hop.symm.trans h⟩
  · rintro ⟨a, hl, b, hr, h⟩
    rw [Expr.evaluate, hl, hr]
    exact h

/-- A unary operation has a value if its operand has and the operator gives one for it. -/
theorem Expr.evaluate_unary_eq_ok {op : UnaryOp} {operand : Expr} {v : Scalar} :
    (Expr.unary op operand ty).evaluate param property = .ok v ↔
      ∃ a, operand.evaluate param property = .ok a ∧ op.onScalar a = .ok v := by
  constructor
  · intro h
    obtain ⟨fault, -, hfault⟩ | ⟨a, ho, hop⟩ := Expr.evaluate_unary_cases op operand
    · cases h.symm.trans hfault
    · exact ⟨a, ho, hop.symm.trans h⟩
  · rintro ⟨a, ho, h⟩
    rw [Expr.evaluate, ho]
    exact h

end Operations

/-- No binary operator in an expression has an operand of type `any`. -/
def Expr.AvoidsAny : Expr → Prop
  | .binary _ lhs rhs _ =>
    lhs.declaredTy ≠ some .any ∧ rhs.declaredTy ≠ some .any ∧ lhs.AvoidsAny ∧ rhs.AvoidsAny
  | .unary _ operand _ => operand.AvoidsAny
  | _ => True

/-- The properties that an expression mentions. -/
def Expr.properties : Expr → List String
  | .member (.this _) name _ => [name]
  | .binary _ lhs rhs _ => lhs.properties ++ rhs.properties
  | .unary _ operand _ => operand.properties
  | _ => []

namespace Sheet

variable (s : Sheet)

/-- The value of a parameter. -/
def param (name : String) : Option Scalar := ((s.params.map (·.name)).zip s.args).lookup name

/-- The initializer of a property. -/
def initializer? (name : String) : Option Expr :=
  (s.properties.find? (·.name == name)).bind (·.initializer)

/-- The value of a property, evaluated down to a given depth. -/
def property : ℕ → String → Except Fault Scalar
  | 0, _ => .error .tooDeep
  | depth + 1, name =>
    match s.initializer? name with
    | some init => init.evaluate s.param (property depth)
    | none => .error .unknownName

/-- A property's initializer mentions another property. -/
def DependsOn (p q : String) : Prop := ∃ init, s.initializer? p = some init ∧ q ∈ init.properties

/-- No property depends on itself, directly or through others. -/
def IsAcyclic : Prop := ∀ p, ¬Relation.TransGen s.DependsOn p p

/-- No property divides by zero or overflows. -/
def IsFaultFree : Prop :=
  ∀ depth, ∀ p ∈ s.properties, s.property depth p.name ≠ .error .divisionByZero ∧
    s.property depth p.name ≠ .error .overflow

/-- No operator of a property gets operands of two types. -/
def IsMatching : Prop :=
  ∀ depth, ∀ p ∈ s.properties, s.property depth p.name ≠ .error .mismatched

/-- No binary operator of a property has an operand of type `any`. -/
def AvoidsAny : Prop := ∀ p ∈ s.properties, ∀ init, p.initializer = some init → init.AvoidsAny

end Sheet

/-! ## Types -/

/-- A scalar can be given where a type is expected: it is of that type, or anything may be given. -/
def Scalar.Fits (v : Scalar) (ty : TypeId) : Prop := v.ty = ty ∨ ty = .any

/-- The type belongs to scalars. -/
def TypeId.IsScalar (ty : TypeId) : Prop := ∃ v : Scalar, v.ty = ty

/-- The typing of expressions over the parameters and properties of a class. The operators are
typed as the checker types them: the operands of a binary operator are of one type, and this may be
`any` for `==` and `!=`. -/
inductive Sheet.HasType (s : Sheet) : Expr → TypeId → Prop where
  /-- A literal. -/
  | scalar (v : Scalar) : HasType s (.scalar v) v.ty
  /-- A parameter. -/
  | param {p : Param} : p ∈ s.params → HasType s (.param p.name p.ty) p.ty
  /-- A property of the same class. -/
  | property {p : Property} (cls : TypeId) : p ∈ s.properties →
    HasType s (.member (.this cls) p.name p.ty) p.ty
  /-- A binary operation that needs both operands. -/
  | binary {op lhs rhs ty result} : op ≠ .and → op ≠ .or → HasType s lhs ty → HasType s rhs ty →
    op.resultOn ty = some result → HasType s (.binary op lhs rhs result) result
  /-- A unary operation that needs its operand. -/
  | unary {op operand ty result} : op ≠ .typeOf → HasType s operand ty →
    op.resultOn ty = some result → HasType s (.unary op operand result) result

/-- Every property has an initializer of its type, and every parameter a value of its type. Names
are distinct. -/
structure Sheet.WellTyped (s : Sheet) : Prop where
  /-- Properties have distinct names. -/
  properties : (s.properties.map (·.name)).Nodup
  /-- Parameters have distinct names. -/
  params : (s.params.map (·.name)).Nodup
  /-- Initializers are of the declared types. -/
  typed : ∀ p ∈ s.properties, ∃ init ty, p.initializer = some init ∧ s.HasType init ty ∧
    (ty = p.ty ∨ p.ty = .any)
  /-- Arguments are of the declared types. -/
  args : List.Forall₂ Scalar.Fits s.args (s.params.map (·.ty))

/-- What typing promises of a result: it fits the type, or arithmetic has failed. -/
def Fault.Promised (ty : TypeId) : Except Fault Scalar → Prop
  | .ok v => v.Fits ty
  | .error fault => fault = .divisionByZero ∨ fault = .overflow

/-- What is to be expected of a result where operands of type `any` may be of two types. -/
def Fault.Expected (ty : TypeId) : Except Fault Scalar → Prop
  | .ok v => v.Fits ty
  | .error fault => fault = .divisionByZero ∨ fault = .overflow ∨ fault = .mismatched

/-- What is promised is to be expected. -/
theorem Fault.Promised.expected {ty : TypeId} {r : Except Fault Scalar} (h : Fault.Promised ty r) :
    Fault.Expected ty r := by
  cases r with
  | ok v => exact h
  | error fault => exact Or.imp_right Or.inl h

/-- Operands of two types are no failure of arithmetic. -/
theorem Fault.Promised.ne_mismatched {ty : TypeId} {r : Except Fault Scalar}
    (h : Fault.Promised ty r) : r ≠ .error .mismatched := by
  rintro rfl
  rcases h with h | h <;> cases h

/-- Checked integer results are integers or overflows. -/
theorem promised_fitting (r : Option Int64) : Fault.Promised .int (Fault.fitting r) := by
  cases r with
  | some n => exact .inl rfl
  | none => exact .inr rfl

/-- Results of comparisons are truth values. -/
theorem promised_comparing {r : Option Bool} (hr : r.isSome = true) :
    Fault.Promised .bool (Fault.comparing r) := by
  obtain ⟨b, rfl⟩ := Option.isSome_iff_exists.mp hr
  exact .inl rfl

section Operators

variable {op : BinaryOp} {result : TypeId}

/-- Binary operators on integers keep their type. -/
theorem promised_onInts (hop : op.resultOn .int = some result) (a b : Int64) :
    Fault.Promised result (op.onInts a b) := by
  cases op with
  | and | or => simp [BinaryOp.resultOn, TypeId.int, TypeId.bool] at hop
  | add | sub | mul =>
    obtain rfl : .int = result := by simpa [BinaryOp.resultOn] using hop
    exact promised_fitting _
  | div | rem =>
    obtain rfl : .int = result := by simpa [BinaryOp.resultOn] using hop
    simp only [BinaryOp.onInts]
    split
    · exact .inl rfl
    · exact promised_fitting _
  | _ =>
    obtain rfl : .bool = result := by simpa [BinaryOp.resultOn] using hop
    exact .inl rfl

/-- Binary operators on floats keep their type. -/
theorem promised_onFloatValues (hop : op.resultOn .float = some result) (a b : Float) :
    Fault.Promised result (op.onFloatValues a b) := by
  cases op with
  | and | or => simp [BinaryOp.resultOn, TypeId.float, TypeId.bool] at hop
  | add | sub | mul =>
    obtain rfl : .float = result := by simpa [BinaryOp.resultOn] using hop
    exact .inl rfl
  | div | rem =>
    obtain rfl : .float = result := by simpa [BinaryOp.resultOn] using hop
    simp only [BinaryOp.onFloatValues]
    split
    · exact .inl rfl
    · exact .inl rfl
  | _ =>
    obtain rfl : .bool = result := by simpa [BinaryOp.resultOn] using hop
    refine promised_comparing ?_
    unfold BinaryOp.onFloats
    cases floatOrdering? a b <;> rfl

/-- Binary operators on texts keep their type. -/
theorem promised_onStrings (hop : op.resultOn .string = some result) (a b : String) :
    Fault.Promised result (op.onStrings a b) := by
  cases op with
  | add =>
    obtain rfl : .string = result := by simpa [BinaryOp.resultOn] using hop
    exact .inl rfl
  | eq | ne | lt | le | gt | ge =>
    obtain rfl : .bool = result := by simpa [BinaryOp.resultOn] using hop
    exact .inl rfl
  | _ => simp [BinaryOp.resultOn, TypeId.int, TypeId.float, TypeId.string, TypeId.bool] at hop

/-- Binary operators on truth values keep their type. -/
theorem promised_onBools (hop : op.resultOn .bool = some result) (a b : Bool) :
    Fault.Promised result (op.onBools a b) := by
  cases op with
  | eq | ne | and | or =>
    obtain rfl : .bool = result := by simpa [BinaryOp.resultOn] using hop
    exact .inl rfl
  | _ => simp [BinaryOp.resultOn, TypeId.int, TypeId.float, TypeId.string, TypeId.bool] at hop

/-- The types of two scalars of different kinds differ. -/
theorem Scalar.ty_injective_on_kinds {a b : Scalar} (h : a.ty = b.ty) :
    (∃ x y, a = .int x ∧ b = .int y) ∨ (∃ x y, a = .float x ∧ b = .float y) ∨
      (∃ x y, a = .string x ∧ b = .string y) ∨ ∃ x y, a = .bool x ∧ b = .bool y := by
  cases a <;> cases b <;>
    simp [Scalar.ty, TypeId.int, TypeId.float, TypeId.string, TypeId.bool] at h ⊢

/-- Binary operators on operands that the checker accepts keep their type. -/
theorem promised_onScalars {a b : Scalar} (hty : a.ty = b.ty)
    (hop : op.resultOn a.ty = some result) : Fault.Promised result (op.onScalars a b) := by
  rcases Scalar.ty_injective_on_kinds hty with
    ⟨x, y, rfl, rfl⟩ | ⟨x, y, rfl, rfl⟩ | ⟨x, y, rfl, rfl⟩ | ⟨x, y, rfl, rfl⟩
  · exact promised_onInts hop x y
  · exact promised_onFloatValues hop x y
  · exact promised_onStrings hop x y
  · exact promised_onBools hop x y

/-- Unary operators on operands that the checker accepts keep their type. -/
theorem promised_onScalar {op : UnaryOp} (ht : op ≠ .typeOf) {a : Scalar}
    (hop : op.resultOn a.ty = some result) : Fault.Promised result (op.onScalar a) := by
  cases op with
  | typeOf => exact absurd rfl ht
  | neg =>
    cases a with
    | int x =>
      obtain rfl : .int = result := by simpa [UnaryOp.resultOn, Scalar.ty] using hop
      exact promised_fitting _
    | float x =>
      obtain rfl : .float = result := by simpa [UnaryOp.resultOn, Scalar.ty] using hop
      exact .inl rfl
    | _ =>
      simp [UnaryOp.resultOn, Scalar.ty, TypeId.int, TypeId.float, TypeId.string, TypeId.bool]
        at hop
  | not =>
    cases a with
    | bool x =>
      obtain rfl : .bool = result := by simpa [UnaryOp.resultOn, Scalar.ty] using hop
      exact .inl rfl
    | _ =>
      simp [UnaryOp.resultOn, Scalar.ty, TypeId.int, TypeId.float, TypeId.string, TypeId.bool]
        at hop

/-- An operator that has a result on a type has it on the types of all scalars that fit there. -/
theorem BinaryOp.resultOn_of_fits {ty : TypeId} {v : Scalar} (hv : v.Fits ty)
    (hop : op.resultOn ty = some result) : op.resultOn v.ty = some result := by
  rcases hv with rfl | rfl
  · exact hop
  · cases op with
    | eq | ne => exact hop
    | _ => simp [BinaryOp.resultOn, TypeId.any, TypeId.int, TypeId.float, TypeId.string,
        TypeId.bool] at hop

/-- Binary operators that the checker accepts keep their type, or are given operands of two types. -/
theorem expected_onScalars {ty : TypeId} {a b : Scalar} (ha : a.Fits ty)
    (hop : op.resultOn ty = some result) : Fault.Expected result (op.onScalars a b) := by
  by_cases hty : a.ty = b.ty
  · exact (promised_onScalars hty (BinaryOp.resultOn_of_fits ha hop)).expected
  · rw [onScalars_of_ty_ne op hty]
    exact .inr (.inr rfl)

end Operators

/-- What fits a scalar type is of it. -/
theorem Scalar.Fits.ty_eq {v : Scalar} {ty : TypeId} (hv : v.Fits ty) (ht : ty.IsScalar) :
    v.ty = ty := by
  rcases hv with hv | rfl
  · exact hv
  · obtain ⟨u, hu⟩ := ht
    cases u <;> cases hu

/-- An operand of a unary operator that the checker accepts is of a scalar type. -/
theorem UnaryOp.isScalar_of_resultOn {op : UnaryOp} (ht : op ≠ .typeOf) {ty result : TypeId}
    (hop : op.resultOn ty = some result) : ty.IsScalar := by
  cases op with
  | typeOf => exact absurd rfl ht
  | neg =>
    simp only [UnaryOp.resultOn] at hop
    split at hop
    case isTrue h =>
      rcases h with rfl | rfl
      · exact ⟨.int 0, rfl⟩
      · exact ⟨.float 0, rfl⟩
    case isFalse => cases hop
  | not =>
    simp only [UnaryOp.resultOn] at hop
    split at hop
    case isTrue h => exact ⟨.bool true, h.symm⟩
    case isFalse => cases hop

/-- Among distinct keys, a key leads to the item that has it. -/
theorem find?_eq_some_of_nodup {α : Type} {key : α → String} {items : List α} {item : α}
    (hnodup : (items.map key).Nodup) (hitem : item ∈ items) :
    items.find? (key · == key item) = some item := by
  induction items with
  | nil => cases hitem
  | cons first rest ih =>
    obtain ⟨hfirst, hrest⟩ := List.nodup_cons.mp hnodup
    rcases List.mem_cons.mp hitem with rfl | hitem
    · simp
    · have hne : ¬key first = key item := fun h =>
        hfirst (h ▸ List.mem_map.mpr ⟨item, hitem, rfl⟩)
      rw [List.find?_cons_of_neg (by simpa using hne), ih hrest hitem]

/-- Among distinct keys, a key leads to what is in the same place. -/
theorem lookup_zip_eq_getElem? {β : Type} {keys : List String} {values : List β}
    (hnodup : keys.Nodup) (hlen : values.length = keys.length) {j : ℕ} {key : String}
    (hkey : keys[j]? = some key) : (keys.zip values).lookup key = values[j]? := by
  induction keys generalizing values j with
  | nil => cases hkey
  | cons first rest ih =>
    obtain ⟨hfirst, hrest⟩ := List.nodup_cons.mp hnodup
    cases values with
    | nil => cases hlen
    | cons value values =>
      rw [List.zip_cons_cons, List.lookup_cons]
      cases j with
      | zero =>
        obtain rfl : first = key := Option.some.inj hkey
        simp
      | succ j =>
        have hne : (key == first) = false := by
          refine beq_false_of_ne fun h => hfirst ?_
          exact h ▸ List.mem_of_getElem? hkey
        rw [hne]
        exact ih hrest (Nat.succ.inj hlen) hkey

namespace Sheet

variable {s : Sheet}

/-- A typed expression is declared with its type. -/
theorem HasType.declaredTy {e : Expr} {ty : TypeId} (he : s.HasType e ty) :
    e.declaredTy = some ty := by
  cases he <;> rfl

/-- A typed expression mentions properties of the class only. -/
theorem mem_of_mentioned {e : Expr} {ty : TypeId} (he : s.HasType e ty) {q : String}
    (hq : q ∈ e.properties) : ∃ p ∈ s.properties, p.name = q := by
  induction he with
  | scalar => cases hq
  | param => cases hq
  | property cls hmem => exact ⟨_, hmem, (List.mem_singleton.mp hq).symm⟩
  | binary _ _ _ _ _ ihl ihr =>
    rcases List.mem_append.mp hq with hq | hq
    · exact ihl hq
    · exact ihr hq
  | unary _ _ _ ih => exact ih hq

namespace WellTyped

variable (ht : s.WellTyped)

include ht

/-- A property's name leads to its initializer. -/
theorem initializer? {p : Property} (hp : p ∈ s.properties) :
    s.initializer? p.name = p.initializer := by
  rw [Sheet.initializer?, find?_eq_some_of_nodup ht.properties hp, Option.bind_some]

/-- A parameter's name leads to the argument in its place. -/
theorem param_eq {j : ℕ} {p : Param} (hp : s.params[j]? = some p) :
    s.param p.name = s.args[j]? := by
  refine lookup_zip_eq_getElem? ht.params ?_ (by rw [List.getElem?_map, hp]; rfl)
  rw [ht.args.length_eq, List.length_map, List.length_map]

/-- A parameter has a value that fits it. -/
theorem exists_param {p : Param} (hp : p ∈ s.params) :
    ∃ v, s.param p.name = some v ∧ v.Fits p.ty := by
  obtain ⟨j, hj⟩ := List.mem_iff_getElem?.mp hp
  have hlen : j < s.args.length := by
    rw [ht.args.length_eq, List.length_map]
    exact (List.getElem?_eq_some_iff.mp hj).1
  refine ⟨s.args[j], by rw [ht.param_eq hj, List.getElem?_eq_getElem hlen], ?_⟩
  have hfits := (List.forall₂_iff_get.mp ht.args).2 j hlen
    (by rw [← ht.args.length_eq]; exact hlen)
  simpa [(List.getElem?_eq_some_iff.mp hj).2] using hfits

/-- Typed expressions come to what is to be expected, if the properties do that they mention. -/
theorem expected_evaluate {e : Expr} {ty : TypeId} (he : s.HasType e ty)
    (property : String → Except Fault Scalar)
    (hp : ∀ p ∈ s.properties, p.name ∈ e.properties →
      Fault.Expected p.ty (property p.name)) :
    Fault.Expected ty (e.evaluate s.param property) := by
  induction he with
  | scalar v => exact .inl rfl
  | param hmem =>
    obtain ⟨v, hv, hfits⟩ := ht.exists_param hmem
    simp only [Expr.evaluate, hv]
    exact hfits
  | property cls hmem => exact hp _ hmem (List.mem_singleton_self _)
  | @binary op lhs rhs ty result _ _ _ _ hop ihl ihr =>
    have ihl := ihl fun p hmem hin => hp p hmem (List.mem_append_left _ hin)
    have ihr := ihr fun p hmem hin => hp p hmem (List.mem_append_right _ hin)
    obtain ⟨fault, hl, h⟩ | ⟨fault, hr, h⟩ | ⟨a, b, hl, -, h⟩ :=
      Expr.evaluate_binary_cases op lhs rhs <;> rw [h]
    · rw [hl] at ihl
      exact ihl
    · rw [hr] at ihr
      exact ihr
    · rw [hl] at ihl
      exact expected_onScalars ihl hop
  | @unary op operand ty result htypeof _ hop ih =>
    have ih := ih hp
    obtain ⟨fault, ho, h⟩ | ⟨a, ho, h⟩ := Expr.evaluate_unary_cases op operand <;> rw [h]
    · rw [ho] at ih
      exact ih
    · rw [ho] at ih
      have ha : a.ty = ty := Scalar.Fits.ty_eq ih (UnaryOp.isScalar_of_resultOn htypeof hop)
      exact (promised_onScalar htypeof (ha ▸ hop)).expected

end WellTyped

/-! ## Depth -/

section Depth

variable {e : Expr} {param : String → Option Scalar}
  {property property' : String → Except Fault Scalar}

/-- A result that is not for want of depth stays when properties that were too deep are given
results. -/
theorem evaluate_stable (hp : ∀ q, property q ≠ .error .tooDeep → property' q = property q)
    (he : e.evaluate param property ≠ .error .tooDeep) :
    e.evaluate param property' = e.evaluate param property := by
  -- The operands are evaluated in order, and the first result that is too deep is the whole one.
  induction e using Expr.evaluate.induct param with
  | case6 ty name ty' => exact hp name he
  | case7 op lhs rhs ty ihl ihr =>
    simp only [Expr.evaluate] at he ⊢
    cases hl : lhs.evaluate param property with
    | error fault =>
      rw [hl] at he
      rw [ihl (hl ▸ he), hl]
      rfl
    | ok a =>
      rw [ihl (by rw [hl]; exact nofun), hl]
      rw [hl] at he
      cases hr : rhs.evaluate param property with
      | error fault =>
        rw [hr] at he
        rw [ihr (hr ▸ he), hr]
      | ok b => rw [ihr (by rw [hr]; exact nofun), hr]
  | case8 op operand ty ih =>
    simp only [Expr.evaluate] at he ⊢
    cases ho : operand.evaluate param property with
    | error fault =>
      rw [ho] at he
      rw [ih (ho ▸ he), ho]
    | ok a => rw [ih (by rw [ho]; exact nofun), ho]
  | _ => simp_all [Expr.evaluate]

/-- An expression that has a value mentions properties that have values. -/
theorem property_of_evaluate {v : Scalar} (he : e.evaluate param property = .ok v) {q : String}
    (hq : q ∈ e.properties) : ∃ u, property q = .ok u := by
  induction e using Expr.evaluate.induct param generalizing v with
  | case6 ty name ty' =>
    obtain rfl := List.mem_singleton.mp hq
    exact ⟨v, he⟩
  | case7 op lhs rhs ty ihl ihr =>
    obtain ⟨a, hl, b, hr, -⟩ := Expr.evaluate_binary_eq_ok.mp he
    rcases List.mem_append.mp hq with hq | hq
    · exact ihl hl hq
    · exact ihr hr hq
  | case8 op operand ty ih =>
    obtain ⟨a, ho, -⟩ := Expr.evaluate_unary_eq_ok.mp he
    exact ih ho hq
  | _ => simp_all [Expr.properties]

end Depth

/-- A property's result that is not for want of depth is its result at every greater depth. -/
theorem property_stable {depth depth' : ℕ} (hle : depth ≤ depth') {q : String}
    (hq : s.property depth q ≠ .error .tooDeep) :
    s.property depth' q = s.property depth q := by
  induction depth generalizing depth' q with
  | zero => exact absurd rfl hq
  | succ depth ih =>
    obtain ⟨depth', rfl⟩ : ∃ d, depth' = d + 1 := ⟨depth' - 1, by omega⟩
    simp only [property] at hq ⊢
    cases hi : s.initializer? q with
    | none => rfl
    | some init =>
      simp only [hi] at hq ⊢
      exact evaluate_stable (fun q' hq' => ih (by omega) hq') hq

/-- A property's value stays at every greater depth. -/
theorem property_mono {depth depth' : ℕ} (hle : depth ≤ depth') {q : String} {v : Scalar}
    (hq : s.property depth q = .ok v) : s.property depth' q = .ok v := by
  rw [property_stable hle (by rw [hq]; exact nofun), hq]

/-- An expression's value stays at every greater depth. -/
theorem evaluate_mono {e : Expr} {depth depth' : ℕ} (hle : depth ≤ depth') {v : Scalar}
    (he : e.evaluate s.param (s.property depth) = .ok v) :
    e.evaluate s.param (s.property depth') = .ok v := by
  rw [evaluate_stable (fun q hq => property_stable hle hq) (by rw [he]; exact nofun), he]

/-! ## Values -/

open Classical in
/-- The value of a property, if some depth is enough to compute it. -/
noncomputable def value? (s : Sheet) (q : String) : Option Scalar :=
  if h : ∃ v depth, s.property depth q = .ok v then some h.choose else none

open Classical in
/-- The least depth that is enough to compute a property. -/
noncomputable def rank (s : Sheet) (q : String) : ℕ :=
  if h : ∃ depth v, s.property depth q = .ok v then Nat.find h else 0

/-- A property has a value if it is evaluated to it at some depth. -/
theorem value?_eq_some {q : String} {v : Scalar} :
    s.value? q = some v ↔ ∃ depth, s.property depth q = .ok v := by
  unfold value?
  split
  case isTrue h =>
    obtain ⟨depth, hdepth⟩ := h.choose_spec
    rw [Option.some.injEq]
    constructor
    · rintro rfl
      exact ⟨depth, hdepth⟩
    · rintro ⟨depth', hdepth'⟩
      -- Two depths that are enough agree at the greater one.
      have h₁ := property_mono (Nat.le_max_left depth depth') hdepth
      have h₂ := property_mono (Nat.le_max_right depth depth') hdepth'
      exact Except.ok.inj (h₁.symm.trans h₂)
  case isFalse h => exact ⟨nofun, fun ⟨depth, hdepth⟩ => absurd ⟨v, depth, hdepth⟩ h⟩

open Classical in
/-- The rank is the least depth that is enough. -/
theorem rank_spec {q : String} (h : ∃ depth v, s.property depth q = .ok v) :
    (∃ v, s.property (s.rank q) q = .ok v) ∧
      ∀ depth v, s.property depth q = .ok v → s.rank q ≤ depth := by
  have hrank : s.rank q = Nat.find h := dif_pos h
  rw [hrank]
  exact ⟨Nat.find_spec h, fun depth v hv => Nat.find_min' h ⟨v, hv⟩⟩

/-- The rank of a property with a value is enough to compute it. -/
theorem property_rank {q : String} {v : Scalar} (hv : s.value? q = some v) :
    s.property (s.rank q) q = .ok v := by
  obtain ⟨depth, hdepth⟩ := value?_eq_some.mp hv
  obtain ⟨⟨u, hu⟩, -⟩ := rank_spec ⟨depth, v, hdepth⟩
  have hsame : Except.ok v = .ok u :=
    calc .ok v
        = s.property (max (s.rank q) depth) q := (property_mono (Nat.le_max_right _ _) hdepth).symm
      _ = .ok u := property_mono (Nat.le_max_left _ _) hu
  rw [hu, Except.ok.inj hsame]

/-- No smaller depth than the rank is enough. -/
theorem rank_le {q : String} {v : Scalar} {depth : ℕ} (hv : s.property depth q = .ok v) :
    s.rank q ≤ depth :=
  (rank_spec ⟨depth, v, hv⟩).2 depth v hv

/-- What a property with a value depends on has a value as well, and a lower rank. -/
theorem rank_lt_of_dependsOn {p q : String} (hpq : s.DependsOn p q) {v : Scalar}
    (hv : s.value? p = some v) : ∃ u, s.value? q = some u ∧ s.rank q < s.rank p := by
  obtain ⟨init, hinit, hq⟩ := hpq
  have hp := property_rank hv
  cases hrank : s.rank p with
  | zero => rw [hrank] at hp; cases hp
  | succ depth =>
    rw [hrank] at hp
    simp only [property, hinit] at hp
    obtain ⟨u, hu⟩ := property_of_evaluate hp hq
    exact ⟨u, value?_eq_some.mpr ⟨depth, hu⟩, Nat.lt_succ_of_le (rank_le hu)⟩

/-- Ranks fall along dependencies. -/
theorem rank_lt_of_transGen {p q : String} (hpq : Relation.TransGen s.DependsOn p q) {v : Scalar}
    (hv : s.value? p = some v) : ∃ u, s.value? q = some u ∧ s.rank q < s.rank p := by
  induction hpq with
  | single h => exact rank_lt_of_dependsOn h hv
  | tail _ h ih =>
    obtain ⟨u, hu, hlt⟩ := ih
    obtain ⟨u', hu', hlt'⟩ := rank_lt_of_dependsOn h hu
    exact ⟨u', hu', Nat.lt_trans hlt' hlt⟩

namespace WellTyped

/-- Dependencies among properties that do not go in a circle are well-founded, since there are
finitely many properties. -/
theorem wellFounded (hacyclic : s.IsAcyclic) :
    WellFounded fun a b : {q // q ∈ s.properties.map (·.name)} =>
      Relation.TransGen s.DependsOn b.1 a.1 := by
  -- A transitive and irreflexive relation on a finite type is well-founded.
  have : Finite {q // q ∈ s.properties.map (·.name)} :=
    (List.finite_toSet _).to_subtype
  have : IsTrans {q // q ∈ s.properties.map (·.name)}
      fun a b => Relation.TransGen s.DependsOn b.1 a.1 := ⟨fun _ _ _ hab hbc => hbc.trans hab⟩
  have : Std.Irrefl fun a b : {q // q ∈ s.properties.map (·.name)} =>
      Relation.TransGen s.DependsOn b.1 a.1 := ⟨fun a => hacyclic a.1⟩
  exact Finite.wellFounded_of_trans_of_irrefl _

/-- Some depth is enough for all of a list of properties that have values. -/
theorem exists_depth (names : List String) (h : ∀ q ∈ names, ∃ v, s.value? q = some v) :
    ∃ depth, ∀ q ∈ names, ∃ v, s.property depth q = .ok v := by
  induction names with
  | nil => exact ⟨0, fun q hq => absurd hq List.not_mem_nil⟩
  | cons first rest ih =>
    obtain ⟨depth, hdepth⟩ := ih fun q hq => h q (List.mem_cons_of_mem _ hq)
    obtain ⟨v, hv⟩ := h first List.mem_cons_self
    obtain ⟨depth', hdepth'⟩ := value?_eq_some.mp hv
    refine ⟨max depth depth', fun q hq => ?_⟩
    rcases List.mem_cons.mp hq with rfl | hq
    · exact ⟨v, property_mono (Nat.le_max_right _ _) hdepth'⟩
    · obtain ⟨u, hu⟩ := hdepth q hq
      exact ⟨u, property_mono (Nat.le_max_left _ _) hu⟩

/-- An expression's value fits its type, if the properties' values do. -/
theorem fits_of_evaluate (ht : s.WellTyped) {e : Expr} {ty : TypeId} (he : s.HasType e ty)
    {property : String → Except Fault Scalar}
    (hp : ∀ p ∈ s.properties, ∀ u, property p.name = .ok u → u.Fits p.ty) {v : Scalar}
    (hv : e.evaluate s.param property = .ok v) : v.Fits ty := by
  have hexpected := ht.expected_evaluate he property fun q hq hmem => by
    obtain ⟨u, hu⟩ := property_of_evaluate hv hmem
    rw [hu]
    exact hp q hq u hu
  rwa [hv] at hexpected

/-- A property's value fits its type. -/
theorem fits_of_property (ht : s.WellTyped) {depth : ℕ} {p : Property} (hp : p ∈ s.properties)
    {v : Scalar} (hv : s.property depth p.name = .ok v) : v.Fits p.ty := by
  induction depth generalizing p v with
  | zero => cases hv
  | succ depth ih =>
    obtain ⟨init, ty, hinit, htype, hty⟩ := ht.typed p hp
    simp only [Sheet.property, ht.initializer? hp, hinit] at hv
    have hfits : v.Fits ty := ht.fits_of_evaluate htype (fun q hq u hu => ih hq hu) hv
    rcases hty with rfl | hany
    · exact hfits
    · exact .inr hany

/-- A typed expression does not get operands of two types, unless one has the type `any` or a
property has got such operands. -/
theorem evaluate_ne_mismatched (ht : s.WellTyped) {e : Expr} {ty : TypeId} (he : s.HasType e ty)
    (havoids : e.AvoidsAny) {depth : ℕ}
    (hp : ∀ p ∈ s.properties, s.property depth p.name ≠ .error .mismatched) :
    e.evaluate s.param (s.property depth) ≠ .error .mismatched := by
  have hfits {e : Expr} {ty : TypeId} (he : s.HasType e ty) {v : Scalar}
      (hv : e.evaluate s.param (s.property depth) = .ok v) : v.Fits ty :=
    ht.fits_of_evaluate he (fun q hq u hu => ht.fits_of_property hq hu) hv
  induction he with
  | scalar v => exact nofun
  | param hmem =>
    obtain ⟨v, hv, -⟩ := ht.exists_param hmem
    simp only [Expr.evaluate, hv]
    exact nofun
  | property cls hmem => exact hp _ hmem
  | @binary op lhs rhs ty result _ _ htl htr hop ihl ihr =>
    obtain ⟨hl_any, hr_any, hl_avoids, hr_avoids⟩ := havoids
    obtain ⟨fault, hl, h⟩ | ⟨fault, hr, h⟩ | ⟨a, b, hl, hr, h⟩ :=
      Expr.evaluate_binary_cases op lhs rhs <;> rw [h]
    · exact hl ▸ ihl hl_avoids
    · exact hr ▸ ihr hr_avoids
    · -- What fits a type other than `any` is of that type, so both operands are.
      have hne : ty ≠ .any := fun h => hl_any (by rw [htl.declaredTy, h])
      have ha : a.ty = ty := (hfits htl hl).resolve_right hne
      have hb : b.ty = ty := (hfits htr hr).resolve_right hne
      exact (promised_onScalars (ha.trans hb.symm) (ha ▸ hop)).ne_mismatched
  | @unary op operand ty result htypeof hto hop ih =>
    obtain ⟨fault, ho, h⟩ | ⟨a, ho, h⟩ := Expr.evaluate_unary_cases op operand <;> rw [h]
    · exact ho ▸ ih havoids
    · have ha : a.ty = ty := (hfits hto ho).ty_eq (UnaryOp.isScalar_of_resultOn htypeof hop)
      exact (promised_onScalar htypeof (ha ▸ hop)).ne_mismatched

/-- Where no operand is of type `any`, no operator gets operands of two types. -/
theorem isMatching (ht : s.WellTyped) (havoids : s.AvoidsAny) : s.IsMatching := by
  intro depth
  induction depth with
  | zero => exact fun p hp => nofun
  | succ depth ih =>
    intro p hp
    obtain ⟨init, ty, hinit, htype, -⟩ := ht.typed p hp
    simp only [Sheet.property, ht.initializer? hp, hinit]
    exact ht.evaluate_ne_mismatched htype (havoids p hp init hinit) ih

end WellTyped

/-- If every property has a value, none depends on itself: it would have a lower rank than
itself. -/
theorem isAcyclic_of_total (hall : ∀ p ∈ s.properties, ∃ v, s.value? p.name = some v) :
    s.IsAcyclic := by
  intro q hq
  -- A name that depends on something is the name of a property.
  obtain ⟨r, ⟨init, hinit, -⟩, -⟩ := Relation.TransGen.head'_iff.mp hq
  obtain ⟨p, hfind, -⟩ := Option.bind_eq_some_iff.mp hinit
  obtain rfl : p.name = q := by simpa using List.find?_some hfind
  obtain ⟨v, hv⟩ := hall p (List.mem_of_find?_eq_some hfind)
  obtain ⟨u, -, hlt⟩ := rank_lt_of_transGen hq hv
  exact Nat.lt_irrefl _ hlt

/-- A property with a value comes to it at every depth that is not too small. -/
theorem property_eq_of_value? {q : String} {v : Scalar} (hv : s.value? q = some v) {depth : ℕ}
    (hne : s.property depth q ≠ .error .tooDeep) : s.property depth q = .ok v := by
  obtain ⟨depth', hdepth'⟩ := value?_eq_some.mp hv
  rw [← property_stable (Nat.le_max_left depth depth') hne]
  exact property_mono (Nat.le_max_right _ _) hdepth'

/-- If a property has a value, the only fault on the way to it is want of depth. -/
theorem property_ne_error_of_value? {q : String} {v : Scalar} (hv : s.value? q = some v) {depth : ℕ}
    {fault : Fault} (hne : fault ≠ .tooDeep) : s.property depth q ≠ .error fault := by
  intro hfault
  have hok := property_eq_of_value? hv fun h => hne (Except.error.inj (hfault.symm.trans h))
  rw [hfault] at hok
  cases hok

/-- A property has a value if those have that it depends on, and no operator fails. -/
theorem exists_value?_of_dependsOn (ht : s.WellTyped) (hfree : s.IsFaultFree)
    (hmatching : s.IsMatching) {p : Property} (hp : p ∈ s.properties)
    (hdep : ∀ q ∈ s.properties, s.DependsOn p.name q.name → ∃ v, s.value? q.name = some v) :
    ∃ v, s.value? p.name = some v := by
  obtain ⟨init, ty, hinit, htype, -⟩ := ht.typed p hp
  have hinit' := (ht.initializer? hp).trans hinit
  -- A depth at which all properties that are mentioned have come to their values.
  obtain ⟨depth, hdepth⟩ := WellTyped.exists_depth init.properties fun q hq => by
    obtain ⟨p', hp', rfl⟩ := mem_of_mentioned htype hq
    exact hdep p' hp' ⟨init, hinit', hq⟩
  have hexpected := ht.expected_evaluate htype (s.property depth)
    fun q hq hmem => by
      obtain ⟨v, hv⟩ := hdepth q.name hmem
      rw [hv]
      exact ht.fits_of_property hq hv
  have hnext : s.property (depth + 1) p.name = init.evaluate s.param (s.property depth) := by
    simp only [Sheet.property, hinit']
  cases hv : init.evaluate s.param (s.property depth) with
  | ok v => exact ⟨v, value?_eq_some.mpr ⟨depth + 1, hnext.trans hv⟩⟩
  | error fault =>
    rw [hv] at hexpected hnext
    rcases hexpected with rfl | rfl | rfl
    · exact absurd hnext (hfree (depth + 1) p hp).1
    · exact absurd hnext (hfree (depth + 1) p hp).2
    · exact absurd hnext (hmatching (depth + 1) p hp)

/-- **Every property has a value** exactly if the properties do not depend on each other in a
circle, arithmetic never fails, and no operator gets operands of two types. -/
theorem total_iff (ht : s.WellTyped) :
    (∀ p ∈ s.properties, ∃ v, s.value? p.name = some v) ↔
      s.IsAcyclic ∧ s.IsFaultFree ∧ s.IsMatching := by
  constructor
  · intro hall
    have hne {depth : ℕ} {p : Property} (hp : p ∈ s.properties) {fault : Fault}
        (hfault : fault ≠ .tooDeep) : s.property depth p.name ≠ .error fault := by
      obtain ⟨v, hv⟩ := hall p hp
      exact property_ne_error_of_value? hv hfault
    exact ⟨isAcyclic_of_total hall, fun depth p hp => ⟨hne hp nofun, hne hp nofun⟩,
      fun depth p hp => hne hp nofun⟩
  rintro ⟨hacyclic, hfree, hmatching⟩ p hp
  -- The induction is on the names of properties, along dependencies.
  have hwf := WellTyped.wellFounded hacyclic
  induction hq : (⟨p.name, List.mem_map.mpr ⟨p, hp, rfl⟩⟩ : {q // q ∈ s.properties.map (·.name)})
    using hwf.induction generalizing p with
  | _ q ih =>
    subst hq
    refine exists_value?_of_dependsOn ht hfree hmatching hp fun q hq hdepends => ?_
    exact ih _ (Relation.TransGen.single hdepends) q hq rfl

end Sheet

end ObjectGraph
