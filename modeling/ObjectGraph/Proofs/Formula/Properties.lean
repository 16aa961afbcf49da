import ObjectGraph.Proofs.Check.Poison
import ObjectGraph.Proofs.Construct
import ObjectGraph.Proofs.Formula.Object
import ObjectGraph.Proofs.Formula.Recursive
import ObjectGraph.Proofs.ObjectJson

/-!
# Properties come to their recursively evaluated values

A class of formulas has well-typed initializers over scalar literals, its parameters and its own
properties. The valuation of such a class gives each property the value that recursive evaluation
computes (`Sheet.valuation`), and a new object of the class is governed by it (`governs_ofObject`).
So the evaluation of the object succeeds exactly if recursive evaluation does, and with the same
values, in whatever order sweeps go through their cells (`evaluates_properties`).

It is not enough for that that the properties do not depend on each other in a circle and arithmetic
never fails. The checker accepts `p == q` for parameters of type `any`, and the evaluation ends with an
error if they are given values of two types (`compares_two_types`).
-/

namespace ObjectGraph

variable {σ : Type} {natives : Natives σ}

/-- The cells of a new object, with the values that recursive evaluation gives them. -/
noncomputable def Sheet.valuation (s : Sheet) : Valuation where
  cells := (List.range s.params.length).map (.binding ⟨0⟩) ++
    (List.range s.properties.length).map (.slot ⟨0⟩)
  value
    | .binding _ j => s.args[j]?
    | .slot _ i => s.properties[i]?.bind (s.value? ·.name)
    | .element _ _ => none
  rank
    | .slot _ i => (s.properties[i]?.map (s.rank ·.name)).getD 0
    | .binding _ _ | .element _ _ => 0

/-- The properties and parameters of a class, with given arguments. -/
def TypeDef.sheet (d : TypeDef) (args : List Scalar) : Sheet := ⟨d.properties, d.params, args⟩

namespace Sheet

variable {s : Sheet} {h : Heap} {i j : ℕ}

/-- A result as an optional value. -/
theorem toOption_eq_some {r : Except Fault Scalar} {v : Scalar} :
    r.toOption = some v ↔ r = .ok v := by
  cases r <;> simp [Except.toOption]

/-- A property with a value takes some depth to evaluate. -/
theorem rank_pos {q : String} {v : Scalar} (hv : s.value? q = some v) : 0 < s.rank q := by
  refine Nat.pos_of_ne_zero fun hzero => ?_
  have hrank := property_rank hv
  rw [hzero] at hrank
  cases hrank

/-- The cells of parameters. -/
theorem binding_mem_cells {id : ScopeId} :
    .binding id j ∈ s.valuation.cells ↔ id = ⟨0⟩ ∧ j < s.params.length := by
  simp [valuation, and_comm, eq_comm]

/-- The cells of properties. -/
theorem slot_mem_cells {id : InstanceId} :
    .slot id i ∈ s.valuation.cells ↔ id = ⟨0⟩ ∧ i < s.properties.length := by
  simp [valuation, and_comm, eq_comm]

/-- Every cell is that of a parameter or of a property. -/
theorem mem_cells {c : Cell} (hc : c ∈ s.valuation.cells) :
    (∃ j, j < s.params.length ∧ .binding ⟨0⟩ j = c) ∨
      ∃ i, i < s.properties.length ∧ .slot ⟨0⟩ i = c := by
  simpa only [valuation, List.mem_append, List.mem_map, List.mem_range] using hc

/-- Parameters and properties are where a new object has them. -/
structure LaidOut (s : Sheet) (h : Heap) : Prop where
  /-- A parameter's name leads to its binding. -/
  param : ∀ {j p}, s.params[j]? = some p → h.nameCell? (some ⟨0⟩) p.name = some (.binding ⟨0⟩ j)
  /-- `this` is the object. -/
  receiver : h.receiver? ⟨0⟩ = some ⟨0⟩
  /-- A property's name leads to its slot. -/
  property : ∀ {i p}, s.properties[i]? = some p → h.slotCell? ⟨0⟩ p.name = some (.slot ⟨0⟩ i)

namespace LaidOut

variable (hl : s.LaidOut h) {e : Expr} {ty : TypeId}

include hl

/-- The cell of a property that is read from `this`. -/
theorem memberCell? {p : Property} (cls : TypeId) (hp : s.properties[i]? = some p) :
    h.memberCell? (some ⟨0⟩) (.this cls) p.name = some (.slot ⟨0⟩ i) := by
  simp only [Heap.memberCell?, Heap.subject?, Option.bind_some, hl.receiver, hl.property hp]

/-- Typed expressions are formulas. -/
theorem formula (he : s.HasType e ty) : e.Formula s.valuation h (some ⟨0⟩) := by
  induction he with
  | scalar v => exact .scalar v
  | @param p hp =>
    obtain ⟨j, hj⟩ := List.mem_iff_getElem?.mp hp
    exact .param _ (hl.param hj)
      (binding_mem_cells.mpr ⟨rfl, (List.getElem?_eq_some_iff.mp hj).1⟩)
  | @property p cls hp =>
    obtain ⟨i, hi⟩ := List.mem_iff_getElem?.mp hp
    exact .member _ (hl.memberCell? cls hi)
      (slot_mem_cells.mpr ⟨rfl, (List.getElem?_eq_some_iff.mp hi).1⟩)
  | binary ha ho _ _ _ ihl ihr => exact .binary _ ha ho ihl ihr
  | unary ht _ _ ih => exact .unary _ ht ih

/-- Typed expressions read parameters and the properties that they mention. -/
theorem mem_reads (he : s.HasType e ty) {c : Cell} (hc : c ∈ e.reads h (some ⟨0⟩)) :
    (∃ j, c = .binding ⟨0⟩ j) ∨
      ∃ i p, s.properties[i]? = some p ∧ c = .slot ⟨0⟩ i ∧ p.name ∈ e.properties := by
  induction he with
  | scalar v => cases hc
  | @param p hp =>
    obtain ⟨j, hj⟩ := List.mem_iff_getElem?.mp hp
    rw [Expr.reads, hl.param hj] at hc
    exact .inl ⟨j, List.mem_singleton.mp hc⟩
  | @property p cls hp =>
    obtain ⟨i, hi⟩ := List.mem_iff_getElem?.mp hp
    rw [Expr.reads, hl.memberCell? cls hi] at hc
    exact .inr ⟨i, p, hi, List.mem_singleton.mp hc, List.mem_singleton_self _⟩
  | binary _ _ _ _ _ ihl ihr =>
    rcases List.mem_append.mp hc with hc | hc
    · rcases ihl hc with hj | ⟨i, p, hi, hc, hp⟩
      · exact .inl hj
      · exact .inr ⟨i, p, hi, hc, List.mem_append_left _ hp⟩
    · rcases ihr hc with hj | ⟨i, p, hi, hc, hp⟩
      · exact .inl hj
      · exact .inr ⟨i, p, hi, hc, List.mem_append_right _ hp⟩
  | unary _ _ _ ih => exact ih hc

/-- The value of a typed expression is what it is evaluated to at some depth. -/
theorem valueIn_eq_some (ht : s.WellTyped) (he : s.HasType e ty) {v : Scalar} :
    e.valueIn s.valuation h (some ⟨0⟩) = some v ↔
      ∃ depth, e.evaluate s.param (s.property depth) = .ok v := by
  induction he generalizing v with
  | scalar u => simp [Expr.valueIn, Expr.evaluate]
  | @param p hp =>
    obtain ⟨j, hj⟩ := List.mem_iff_getElem?.mp hp
    have hvalue : (Expr.param p.name p.ty).valueIn s.valuation h (some ⟨0⟩) = s.param p.name := by
      rw [Expr.valueIn, hl.param hj, Option.bind_some, ht.param_eq hj]
      rfl
    rw [hvalue]
    cases hparam : s.param p.name <;> simp [Expr.evaluate, hparam]
  | @property p cls hp =>
    obtain ⟨i, hi⟩ := List.mem_iff_getElem?.mp hp
    have hvalue : (Expr.member (.this cls) p.name p.ty).valueIn s.valuation h (some ⟨0⟩) =
        s.value? p.name := by
      rw [Expr.valueIn, hl.memberCell? cls hi, Option.bind_some]
      simp only [valuation, hi, Option.bind_some]
    rw [hvalue]
    exact value?_eq_some
  | @binary op lhs rhs ty result _ _ _ _ _ ihl ihr =>
    simp only [Expr.valueIn, Option.bind_eq_bind, Option.bind_eq_some_iff, ihl, ihr,
      toOption_eq_some, Expr.evaluate_binary_eq_ok]
    constructor
    · -- The operands are there at the larger of the two depths.
      rintro ⟨a, ⟨depth, hl⟩, b, ⟨depth', hr⟩, hop⟩
      exact ⟨max depth depth', a, evaluate_mono (Nat.le_max_left _ _) hl, b,
        evaluate_mono (Nat.le_max_right _ _) hr, hop⟩
    · rintro ⟨depth, a, hl, b, hr, hop⟩
      exact ⟨a, ⟨depth, hl⟩, b, ⟨depth, hr⟩, hop⟩
  | @unary op operand ty result _ _ _ ih =>
    simp only [Expr.valueIn, Option.bind_eq_bind, Option.bind_eq_some_iff, ih, toOption_eq_some,
      Expr.evaluate_unary_eq_ok]
    constructor
    · rintro ⟨a, ⟨depth, ho⟩, hop⟩
      exact ⟨depth, a, ho, hop⟩
    · rintro ⟨depth, a, ho, hop⟩
      exact ⟨a, ⟨depth, ho⟩, hop⟩

/-- The initializer of a property fits the property's cell. -/
theorem fits (ht : s.WellTyped) {p : Property} (hp : s.properties[i]? = some p) {init : Expr}
    (hinit : p.initializer = some init) :
    s.valuation.Fits h (.slot ⟨0⟩ i) (.scoped ⟨0⟩ init) := by
  have hmem : p ∈ s.properties := List.mem_of_getElem? hp
  obtain ⟨init', ty, hinit', he, -⟩ := ht.typed p hmem
  obtain rfl : init = init' := Option.some.inj (hinit.symm.trans hinit')
  -- The cell holds the initializer in the constructor scope, and its value is the property's own.
  have hnamed : s.initializer? p.name = some init := (ht.initializer? hmem).trans hinit
  have hvalue : s.valuation.value (.slot ⟨0⟩ i) = s.value? p.name := by
    simp only [valuation, hp, Option.bind_some]
  refine ⟨.within (hl.formula he), ?_, fun hsome c hc => ?_⟩
  · rw [hvalue]
    refine Option.ext fun v => ?_
    rw [show (Expr.scoped ⟨0⟩ init).valueIn s.valuation h none =
      init.valueIn s.valuation h (some ⟨0⟩) from rfl, hl.valueIn_eq_some ht he, value?_eq_some]
    constructor
    · rintro ⟨depth, hv⟩
      exact ⟨depth + 1, by simp only [Sheet.property, hnamed, hv]⟩
    · rintro ⟨depth, hv⟩
      cases depth with
      | zero => cases hv
      | succ depth => exact ⟨depth, by simpa only [Sheet.property, hnamed] using hv⟩
  -- A property that is read has a lower rank because it takes less depth to evaluate.
  · rw [hvalue] at hsome
    obtain ⟨v, hv⟩ := Option.isSome_iff_exists.mp hsome
    have hrank : s.valuation.rank (.slot ⟨0⟩ i) = s.rank p.name := by
      simp only [valuation, hp, Option.map_some, Option.getD_some]
    rw [hrank]
    rcases hl.mem_reads he hc with ⟨j, rfl⟩ | ⟨i', q, hq, rfl, hmention⟩
    · exact rank_pos hv
    · have hrank' : s.valuation.rank (.slot ⟨0⟩ i') = s.rank q.name := by
        simp only [valuation, hq, Option.map_some, Option.getD_some]
      rw [hrank']
      obtain ⟨u, -, hlt⟩ := rank_lt_of_dependsOn ⟨init, hnamed, hmention⟩ hv
      exact hlt

end LaidOut

end Sheet

/-! ## The new object -/

/-- A class of formulas with the arguments that it is constructed with. Its parent is `any`, it has
no plugin, and its properties are visible and well typed. -/
structure FormulaClass (natives : Natives σ) (types : Registry) (cls : TypeId)
    (args : List Scalar) : Prop extends PlainClass natives types cls where
  /-- All properties and arguments are well typed. -/
  typed : ((types.definition cls).sheet args).WellTyped

namespace FormulaClass

variable {types : Registry} {cls : TypeId} {args : List Scalar}
  {methods inherited : List Binding} {native : Bool}

/-- The heap with a new object of the class. -/
def heap (d : TypeDef) (args : List Scalar) (cls : TypeId) (native : Bool)
    (methods inherited : List Binding) : Heap :=
  .ofObject cls (bindParams d.params (args.map .scalar) ++ methods) inherited
    (d.properties.map (initialSlot native ⟨0⟩ cls ⟨0⟩))

/-- Parameters and properties are laid out on the heap of a new object. -/
theorem laidOut {d : TypeDef} (ht : (d.sheet args).WellTyped) :
    (d.sheet args).LaidOut (heap d args cls native methods inherited) where
  param {j p} hp := by
    have hnames : ((bindParams d.params (args.map .scalar)).map (·.name)).Nodup := by
      rw [map_name_bindParams]
      exact ht.params
    have hlt : j < args.length := by
      rw [show args.length = (d.params.map (·.ty)).length from ht.args.length_eq, List.length_map]
      exact (List.getElem?_eq_some_iff.mp hp).1
    have harg : (args.map Expr.scalar)[j]? = some (.scalar args[j]) := by
      rw [List.getElem?_map, List.getElem?_eq_getElem hlt]
      rfl
    have hfound := findIdx?_append_of_nodup methods hnames (bindParams_getElem? hp harg)
    simp only [Heap.nameCell?, Option.bind_some, heap, Heap.lookup?_ofObject, hfound,
      Option.map_some]
  receiver := Heap.receiver?_ofObject
  property {i p} hp := by
    have hnames : ((d.properties.map (initialSlot native ⟨0⟩ cls ⟨0⟩)).map (·.name)).Nodup := by
      rw [List.map_map]
      exact ht.properties
    have hslot : (d.properties.map (initialSlot native ⟨0⟩ cls ⟨0⟩))[i]? =
        some (initialSlot native ⟨0⟩ cls ⟨0⟩ p) := by
      rw [List.getElem?_map, show d.properties[i]? = some p from hp]
      rfl
    have hfound := findIdx?_append_of_nodup [] hnames hslot
    rw [List.append_nil] at hfound
    show (List.findIdx? _ _).map _ = _
    exact congrArg (Option.map (Cell.slot ⟨0⟩)) hfound

/-- A parameter is bound to the literal of its argument. -/
theorem read?_param {d : TypeDef} (ht : (d.sheet args).WellTyped) {j : ℕ}
    (hj : j < d.params.length) :
    ∃ v, (d.sheet args).args[j]? = some v ∧
      (heap d args cls native methods inherited).read? (.binding ⟨0⟩ j) = some (.scalar v) := by
  have hlt : j < args.length := by
    rwa [show args.length = (d.params.map (·.ty)).length from ht.args.length_eq, List.length_map]
  have harg : (args.map Expr.scalar)[j]? = some (.scalar args[j]) := by
    rw [List.getElem?_map, List.getElem?_eq_getElem hlt]
    rfl
  have hbound := bindParams_getElem? (List.getElem?_eq_getElem hj) harg
  have hall : (bindParams d.params (args.map .scalar) ++ methods)[j]? =
      some ⟨d.params[j].name, .scalar args[j], d.params[j].ty⟩ := by
    rw [List.getElem?_append_left (List.getElem?_eq_some_iff.mp hbound).1, hbound]
  exact ⟨args[j], List.getElem?_eq_getElem hlt, congrArg (Option.map Binding.expr) hall⟩

/-- A property holds its initializer. -/
theorem read?_property {d : TypeDef} {i : ℕ} {p : Property} (hp : d.properties[i]? = some p) :
    (heap d args cls native methods inherited).read? (.slot ⟨0⟩ i) =
      some (initialSlot native ⟨0⟩ cls ⟨0⟩ p).expr := by
  have hslot : (d.properties.map (initialSlot native ⟨0⟩ cls ⟨0⟩))[i]? =
      some (initialSlot native ⟨0⟩ cls ⟨0⟩ p) := by
    rw [List.getElem?_map, hp]
    rfl
  exact congrArg (Option.map Slot.expr) hslot

/-- What the cells of a new object hold: its arguments and methods, and its initializers. -/
theorem read?_heap {d : TypeDef} {c : Cell} {e : Expr}
    (hunbound : ∀ b ∈ methods ++ inherited, ∃ m, b.expr = Expr.unbound m)
    (hc : (heap d args cls native methods inherited).read? c = some e) :
    (∃ j v, c = .binding ⟨0⟩ j ∧ j < d.params.length ∧ e = .scalar v) ∨
      (e.isTerminal = true ∧ ∀ h : Heap, h.handles e = []) ∨
      ∃ i p, c = .slot ⟨0⟩ i ∧ d.properties[i]? = some p ∧
        e = (initialSlot native ⟨0⟩ cls ⟨0⟩ p).expr := by
  have hmethod {b : Binding} (hb : b ∈ methods ++ inherited) :
      b.expr.isTerminal = true ∧ ∀ h : Heap, h.handles b.expr = [] := by
    obtain ⟨m, hm⟩ := hunbound b hb
    rw [hm]
    exact ⟨rfl, fun _ => rfl⟩
  have hlength : (bindParams d.params (args.map .scalar)).length = d.params.length := by
    have hnames := congrArg List.length (map_name_bindParams d.params (args.map .scalar))
    rwa [List.length_map, List.length_map] at hnames
  rcases Heap.read?_ofObject hc with
    ⟨j, b, rfl, hb, rfl⟩ | ⟨b, hb, rfl⟩ | ⟨i, slot, rfl, hslot, rfl⟩
  · -- The bindings of the parameters come first, and those of the methods after them.
    by_cases hj : j < d.params.length
    · rw [List.getElem?_append_left (by rwa [hlength])] at hb
      rcases expr_bindParams (List.mem_of_getElem? hb) with harg | ⟨p, -, hty⟩
      · obtain ⟨v, -, hv⟩ := List.mem_map.mp harg
        exact .inl ⟨j, v, rfl, hj, hv.symm⟩
      · rw [hty]
        exact .inr (.inl ⟨rfl, fun _ => rfl⟩)
    · rw [List.getElem?_append_right (by omega)] at hb
      exact .inr (.inl (hmethod (List.mem_append_left _ (List.mem_of_getElem? hb))))
  · exact .inr (.inl (hmethod (List.mem_append_right _ hb)))
  · rw [List.getElem?_map] at hslot
    obtain ⟨p, hp, rfl⟩ := Option.map_eq_some_iff.mp hslot
    exact .inr (.inr ⟨i, p, rfl, hp, rfl⟩)

variable (hc : FormulaClass natives types cls args)

include hc

/-- The class's valuation governs a new object. -/
theorem governs_ofObject {w : World σ} (hx : types.Extends w.types)
    (hunbound : ∀ b ∈ methods ++ inherited, ∃ m, b.expr = Expr.unbound m)
    (hheap : w.heap = heap (types.definition cls) args cls native methods inherited) :
    ((types.definition cls).sheet args).valuation.Governs natives ⟨0⟩ w w := by
  have hl : ((types.definition cls).sheet args).LaidOut w.heap := by
    rw [hheap]
    exact laidOut hc.typed
  have hty : (w.heap.get ⟨0⟩).ty = cls := by rw [hheap]; rfl
  have hplain : natives.nearest? w.types (w.heap.get ⟨0⟩).ty = none := by
    rw [hty]
    exact hc.nearest?_eq_none hx
  -- Well-typed properties have initializers, and these fit.
  have hslot {i : ℕ} {p : Property} (hp : (types.definition cls).properties[i]? = some p) :
      ∃ init, (initialSlot native ⟨0⟩ cls ⟨0⟩ p).expr = .scoped ⟨0⟩ init ∧
        ((types.definition cls).sheet args).valuation.Fits w.heap (.slot ⟨0⟩ i)
          (.scoped ⟨0⟩ init) := by
    obtain ⟨init, ty, hinit, -, -⟩ := hc.typed.typed p (List.mem_of_getElem? hp)
    exact ⟨init, by simp only [initialSlot, hinit], hl.fits hc.typed hp hinit⟩
  have howner {id : InstanceId} {i : ℕ}
      (hcell : Cell.slot id i ∈ ((types.definition cls).sheet args).valuation.cells) : id = ⟨0⟩ :=
    (Sheet.slot_mem_cells.mp hcell).1
  -- The cells of the valuation are the parameters and the properties. Whatever else a new object
  -- has is a method, which is terminal from the start.
  refine ⟨rfl, .refl, ⟨fun c hcell => ?_, fun c hcell o i heq => ?_, fun hcell => ?_⟩,
    ⟨?_, ?_, ?_, ?_⟩, ?_, hplain, howner, fun hcell => ?_, ?_, fun hsealed => ?_⟩
  · rcases Sheet.mem_cells hcell with ⟨j, hj, rfl⟩ | ⟨i, hi, rfl⟩
    · obtain ⟨v, hv, hread⟩ := read?_param hc.typed hj
      refine ⟨.scalar v, by rw [hheap]; exact hread, .scalar v, hv.symm, fun _ c' hc' => ?_⟩
      exact absurd hc' List.not_mem_nil
    · obtain ⟨p, hp⟩ : ∃ p, (types.definition cls).properties[i]? = some p :=
        ⟨_, List.getElem?_eq_getElem hi⟩
      obtain ⟨init, hexpr, hfits⟩ := hslot hp
      refine ⟨_, ?_, hfits⟩
      rw [hheap, read?_property hp, hexpr]
  · subst heq
    simp [Sheet.valuation] at hcell
  · rw [howner hcell]
    exact hplain
  · rw [hheap]; rfl
  · intro s id hr
    rw [hheap] at hr
    exact Heap.receiver_ofObject hr
  · rw [hheap]; rfl
  · intro c e hread
    rw [hheap] at hread
    rcases read?_heap hunbound hread with
      ⟨j, v, rfl, -, rfl⟩ | ⟨hterm, hnone⟩ | ⟨i, p, rfl, hp, rfl⟩
    · exact fun n hn => absurd hn List.not_mem_nil
    · exact fun n hn => absurd (hnone _ ▸ hn) List.not_mem_nil
    · obtain ⟨init, hexpr, hfits⟩ := hslot hp
      rw [hexpr]
      exact hfits.formula.confined howner
  · rw [hheap]; exact Nat.one_pos
  · rw [(Sheet.binding_mem_cells.mp hcell).1, hheap]
    simp [heap, Heap.ofObject, Heap.get]
  · intro c e hread hcell
    rw [hheap] at hread
    rcases read?_heap hunbound hread with ⟨j, v, rfl, hj, rfl⟩ | ⟨hterm, -⟩ | ⟨i, p, rfl, hp, rfl⟩
    · exact absurd (Sheet.binding_mem_cells.mpr ⟨rfl, hj⟩) hcell
    · exact hterm
    · exact absurd
        (Sheet.slot_mem_cells.mpr ⟨rfl, (List.getElem?_eq_some_iff.mp hp).1⟩) hcell
  · rw [hheap] at hsealed
    cases hsealed

/-- Every cell of a new object has a value if every property has. -/
theorem isTotal_iff : ((types.definition cls).sheet args).valuation.IsTotal ↔
    ∀ p ∈ (types.definition cls).properties,
      ∃ v, ((types.definition cls).sheet args).value? p.name = some v := by
  constructor
  · intro htotal p hp
    obtain ⟨i, hi⟩ := List.mem_iff_getElem?.mp hp
    have hsome := htotal (.slot ⟨0⟩ i)
      (Sheet.slot_mem_cells.mpr ⟨rfl, (List.getElem?_eq_some_iff.mp hi).1⟩)
    simp only [Sheet.valuation, TypeDef.sheet, hi, Option.bind_some] at hsome
    exact Option.isSome_iff_exists.mp hsome
  · intro hall c hcell
    rcases Sheet.mem_cells hcell with ⟨j, hj, rfl⟩ | ⟨i, hi, rfl⟩
    · have hlength : args.length = ((types.definition cls).params.map (·.ty)).length :=
        hc.typed.args.length_eq
      rw [List.length_map] at hlength
      have hlt : j < args.length := by
        rw [hlength]
        exact hj
      exact Option.isSome_iff_exists.mpr ⟨_, List.getElem?_eq_getElem hlt⟩
    · have hp := List.getElem?_eq_getElem hi
      obtain ⟨v, hv⟩ := hall _ (List.getElem_mem hi)
      refine Option.isSome_iff_exists.mpr ⟨v, ?_⟩
      show ((types.definition cls).sheet args).properties[i]?.bind _ = some v
      rw [hp]
      exact hv

/-- Once the object is final, its properties have values, and these are what its JSON shows. -/
theorem toJson_of_sealed {w w' : World σ} (hx : types.Extends w.types)
    (hheap : w.heap = heap (types.definition cls) args cls native methods inherited)
    (hw : ((types.definition cls).sheet args).valuation.Governs natives ⟨0⟩ w w')
    (hsealed : (w'.heap.get ⟨0⟩).sealed = true) :
    ∃ values, List.Forall₂ (fun (p : Property) v =>
        ((types.definition cls).sheet args).value? p.name = some v)
        (types.definition cls).properties values ∧
      w'.toJson .strict ⟨0⟩ = .ok (.object (((types.definition cls).properties.map (·.name)).zip
        (values.map GraphJson.ofScalar))) := by
  have hdefinition : w'.types.definition cls = types.definition cls := by
    rw [hw.types, hx.definition (Registry.lt_size_of_parent hc.parent)]
  -- Evaluation changes what the slots hold and nothing else about them.
  have hframes : (w'.heap.get ⟨0⟩).slots.map Slot.frame =
      (types.definition cls).properties.map
        fun p => (initialSlot native ⟨0⟩ cls ⟨0⟩ p).frame := by
    rw [hw.since.frames (by rw [hheap]; exact Nat.one_pos), hheap]
    exact List.map_map
  have hlength : (w'.heap.get ⟨0⟩).slots.length = (types.definition cls).properties.length := by
    have h := congrArg List.length hframes
    rwa [List.length_map, List.length_map] at h
  have hslot (i : ℕ) (hi : i < (w'.heap.get ⟨0⟩).slots.length) :
      ∃ id v, (w'.heap.get ⟨0⟩).slots[i].expr = .object id ∧ w'.heap.IsScalar id v ∧
        ((types.definition cls).properties[i]?.bind fun p =>
          ((types.definition cls).sheet args).value? p.name) = some v := by
    obtain ⟨id, v, hread, hv, hvalue⟩ := hw.slot_of_sealed hsealed (i := i)
      (Sheet.slot_mem_cells.mpr ⟨rfl, by rw [hlength] at hi; exact hi⟩)
    rw [Heap.read?, List.getElem?_eq_getElem hi, Option.map_some, Option.some.injEq] at hread
    exact ⟨id, v, hread, hv, hvalue⟩
  have hvalue (p : Property) (hp : p ∈ (types.definition cls).properties) :
      ∃ v, ((types.definition cls).sheet args).value? p.name = some v := by
    obtain ⟨i, hi⟩ := List.mem_iff_getElem?.mp hp
    obtain ⟨id, v, -, -, hv⟩ := hslot i (by
      rw [hlength]
      exact (List.getElem?_eq_some_iff.mp hi).1)
    rw [hi] at hv
    exact ⟨v, hv⟩
  -- With a value for each property, the JSON is computed slot by slot.
  obtain ⟨values, hvalues⟩ := exists_forall₂ hvalue
  refine ⟨values, hvalues, ?_⟩
  rw [← hdefinition] at hframes ⊢
  refine World.toJson_of_properties
    (Nat.lt_of_lt_of_le (by rw [hheap]; exact Nat.one_pos) hw.since.size) hw.alone.payload hframes
    (hdefinition ▸ hc.visible) (hdefinition ▸ hc.typed.properties) ?_
  rw [List.forall₂_map_right_iff, List.forall₂_iff_get]
  refine ⟨hlength.trans hvalues.length_eq, fun i hi hi' => ?_⟩
  obtain ⟨id, v, hexpr, hv, hsome⟩ := hslot i hi
  have hi'' : i < (types.definition cls).properties.length := hlength ▸ hi
  have hvalue := hvalues.get hi'' hi'
  rw [List.getElem?_eq_getElem hi'', Option.bind_some] at hsome
  obtain rfl : v = values[i] := Option.some.inj (hsome.symm.trans hvalue)
  rw [List.get_eq_getElem, hexpr]
  exact .scalar hv

/-- A new object of the class can be constructed, and evaluated in any order. If every property has
a value, enough sweeps succeed. After a successful run every property has a value, and these make up
the object's JSON. -/
theorem construct_and_run (hn : natives.HasScalars) (host : σ) :
    ∃ root w,
      Effect.construct natives cls (args.map .scalar) (World.ofTypes types host) = .ok root w ∧
      ((∀ p ∈ (types.definition cls).properties,
          ∃ v, ((types.definition cls).sheet args).value? p.name = some v) →
        ∀ order, ∃ enough, ∀ sweeps ≥ enough,
          ∃ stats w', Effect.run natives ⟨sweeps, order⟩ root w = .ok stats w') ∧
      ∀ settings stats w', Effect.run natives settings root w = .ok stats w' →
        ∃ values, List.Forall₂ (fun (p : Property) v =>
            ((types.definition cls).sheet args).value? p.name = some v)
            (types.definition cls).properties values ∧
          w'.toJson .strict root = .ok (.object
            (((types.definition cls).properties.map (·.name)).zip
              (values.map GraphJson.ofScalar))) := by
  obtain ⟨w, methods, inherited, hx, hunbound, hheap, hconstruct⟩ :=
    Effect.construct_ofTypes natives hc.builtins hc.parent hc.typed.properties
      (args.map .scalar) host
  have hw := hc.governs_ofObject hx hunbound hheap
  have hev : Evaluation natives ⟨0⟩
      (((types.definition cls).sheet args).valuation.Governs natives ⟨0⟩ w) _ _ :=
    Valuation.Governs.evaluation hn
  refine ⟨⟨0⟩, w, hconstruct, fun hall order => ?_, fun settings stats w' hrun => ?_⟩
  · refine ⟨w.remaining ⟨0⟩ (((types.definition cls).sheet args).valuation.weight ·.heap) + 1,
      fun sweeps hsweeps => ?_⟩
    have hends : Ends (Effect.runFrom natives order ⟨0⟩ sweeps {}) w _ _ :=
      hev.run_succeeds hw (hc.isTotal_iff.mpr hall) hsweeps {}
    obtain ⟨stats, w', hrun, -⟩ := hends.exists_ok
    exact ⟨stats, w', hrun⟩
  · obtain ⟨hw', hsealed⟩ := (hev.run_ends hw settings.maxSweeps {}).ok hrun
    exact hc.toJson_of_sealed hx hheap hw' hsealed

end FormulaClass

/-- **Properties come to their recursively evaluated values.** An object of a class of formulas is
constructed, and enough sweeps evaluate it exactly if its properties do not depend on each other in a
circle and recursive evaluation is free of divisions by zero, overflows and operands of two types. The
last is so of itself if no binary operator has an operand of type `any`. Whenever a run succeeds, the
properties have values, which are what the JSON shows in order. Where properties depend on each other
in a circle, no run succeeds. -/
theorem evaluates_properties (hn : natives.HasScalars) {types : Registry} {cls : TypeId}
    {args : List Scalar} (hc : FormulaClass natives types cls args) (host : σ)
    (order : SweepOrder) :
    (((types.definition cls).sheet args).AvoidsAny →
      ((types.definition cls).sheet args).IsMatching) ∧
    ∃ root w,
      Effect.construct natives cls (args.map .scalar) (World.ofTypes types host) = .ok root w ∧
      ((∃ enough, ∀ sweeps ≥ enough,
          ∃ stats w', Effect.run natives ⟨sweeps, order⟩ root w = .ok stats w') ↔
        ((types.definition cls).sheet args).IsAcyclic ∧
          ((types.definition cls).sheet args).IsFaultFree ∧
          ((types.definition cls).sheet args).IsMatching) ∧
      (∀ sweeps stats w', Effect.run natives ⟨sweeps, order⟩ root w = .ok stats w' →
        ∃ values, List.Forall₂ (fun (p : Property) v =>
            ∃ depth, ((types.definition cls).sheet args).property depth p.name = .ok v)
            (types.definition cls).properties values ∧
          w'.toJson .strict root = .ok (.object
            (((types.definition cls).properties.map (·.name)).zip
              (values.map GraphJson.ofScalar)))) ∧
      (¬((types.definition cls).sheet args).IsAcyclic →
        ∀ sweeps, ∃ e w', Effect.run natives ⟨sweeps, order⟩ root w = .error e w') := by
  obtain ⟨root, w, hconstruct, hsucceeds, hshows⟩ := hc.construct_and_run hn host
  have htotal : _ ↔ _ := Sheet.total_iff hc.typed
  -- A run that succeeds shows that every property has a value.
  have hall {sweeps stats w'} (hrun : Effect.run natives ⟨sweeps, order⟩ root w = .ok stats w') :
      ((types.definition cls).sheet args).IsAcyclic ∧
        ((types.definition cls).sheet args).IsFaultFree ∧
        ((types.definition cls).sheet args).IsMatching := by
    obtain ⟨values, hvalues, -⟩ := hshows _ _ _ hrun
    exact htotal.mp fun p hp => exists_of_forall₂ hvalues hp
  refine ⟨hc.typed.isMatching, root, w, hconstruct,
    ⟨?_, fun h => hsucceeds (htotal.mpr h) order⟩, ?_, ?_⟩
  · rintro ⟨enough, hruns⟩
    obtain ⟨stats, w', hrun⟩ := hruns enough (Nat.le_refl _)
    exact hall hrun
  · intro sweeps stats w' hrun
    obtain ⟨values, hvalues, hjson⟩ := hshows _ _ _ hrun
    exact ⟨values, hvalues.imp fun p v hv => Sheet.value?_eq_some.mp hv, hjson⟩
  · intro hcyclic sweeps
    exact exists_error_of_ne_ok fun stats w' hrun => hcyclic (hall hrun).1

/-- A class whose first property adds a parameter to its second one. -/
def sums : ClassBody where
  params := [⟨"n", .int⟩]
  properties := [
    ⟨"a", .visible, .int,
      some (.binary .add (.member (.this .main) "b" .int) (.param "n" .int) .int)⟩,
    ⟨"b", .visible, .int, some (.int 3)⟩]

/-- The class is one of formulas. -/
theorem formulaClass_sums :
    FormulaClass (Natives.builtin : Natives Unit) (.ofClass sums) .main [.int 2] where
  builtins := Registry.hasBuiltins_ofClass sums
  parent := by rw [Registry.parent, Registry.definition_ofClass]; rfl
  plain := rfl
  anyPlain := rfl
  visible := by
    rw [Registry.definition_ofClass]
    simp [sums]
  typed := by
    rw [Registry.definition_ofClass]
    refine ⟨by decide, by decide, ?_, .cons (.inl rfl) .nil⟩
    have hb : (Property.mk "b" .visible .int (some (.int 3))) ∈ sums.properties :=
      List.mem_cons_of_mem _ List.mem_cons_self
    intro p hp
    rcases List.mem_cons.mp hp with rfl | hp
    · have hn : (Param.mk "n" .int) ∈ sums.params := List.mem_cons_self
      exact ⟨_, .int, rfl, .binary (by decide) (by decide) (.property (p := ⟨"b", _, _, _⟩) .main hb)
        (.param (p := ⟨"n", .int⟩) hn) rfl, .inl rfl⟩
    · obtain rfl := List.mem_singleton.mp hp
      exact ⟨_, .int, rfl, .scalar (.int 3), .inl rfl⟩

/-- The values of its properties. -/
theorem value?_sums :
    (Sheet.mk sums.properties sums.params [.int 2]).value? "a" = some (.int 5) ∧
      (Sheet.mk sums.properties sums.params [.int 2]).value? "b" = some (.int 3) :=
  ⟨Sheet.value?_eq_some.mpr ⟨2, rfl⟩, Sheet.value?_eq_some.mpr ⟨1, rfl⟩⟩

/-- The values are found in reverse order too. -/
theorem evaluates_sums :
    ∃ root w, Effect.construct Natives.builtin .main [.int 2]
        (World.ofTypes (.ofClass sums) ()) = .ok root w ∧
      ∃ enough, ∀ sweeps ≥ enough, ∃ stats w',
        Effect.run Natives.builtin ⟨sweeps, .reverse⟩ root w = .ok stats w' ∧
        w'.toJson .strict root = .ok (.object [("a", .int 5), ("b", .int 3)]) := by
  obtain ⟨-, root, w, hconstruct, hsucceeds, hshows, -⟩ :=
    evaluates_properties Natives.builtin_hasScalars formulaClass_sums () .reverse
  rw [Registry.definition_ofClass] at hsucceeds hshows
  have htyped := formulaClass_sums.typed
  rw [Registry.definition_ofClass] at htyped
  obtain ⟨ha, hb⟩ := value?_sums
  have hvalues : ∀ p ∈ sums.properties,
      ∃ v, (Sheet.mk sums.properties sums.params [.int 2]).value? p.name = some v := by
    intro p hp
    rcases List.mem_cons.mp hp with rfl | hp
    · exact ⟨_, ha⟩
    · obtain rfl := List.mem_singleton.mp hp
      exact ⟨_, hb⟩
  refine ⟨root, w, hconstruct, ?_⟩
  obtain ⟨enough, hruns⟩ := hsucceeds.mpr ((Sheet.total_iff htyped).mp hvalues)
  refine ⟨enough, fun sweeps hsweeps => ?_⟩
  obtain ⟨stats, w', hrun⟩ := hruns sweeps hsweeps
  obtain ⟨values, hvalues, hjson⟩ := hshows _ _ _ hrun
  refine ⟨stats, w', hrun, hjson.trans ?_⟩
  rcases hvalues with _ | ⟨ha', _ | ⟨hb', _ | _⟩⟩
  obtain rfl := Option.some.inj (ha.symm.trans (Sheet.value?_eq_some.mpr ha'))
  obtain rfl := Option.some.inj (hb.symm.trans (Sheet.value?_eq_some.mpr hb'))
  rfl

/-! ## Values of two types -/

/-- A class that compares its two parameters, for which anything may be given. -/
def comparison : ClassBody where
  params := [⟨"p", .any⟩, ⟨"q", .any⟩]
  properties := [
    ⟨"c", .visible, .bool, some (.binary .eq (.param "p" .any) (.param "q" .any) .bool)⟩]

/-- The class is one of formulas, whatever is given for the parameters. -/
theorem formulaClass_comparison (p q : Scalar) :
    FormulaClass (Natives.builtin : Natives Unit) (.ofClass comparison) .main [p, q] where
  builtins := Registry.hasBuiltins_ofClass comparison
  parent := by rw [Registry.parent, Registry.definition_ofClass]; rfl
  plain := rfl
  anyPlain := rfl
  visible := by
    rw [Registry.definition_ofClass]
    simp [comparison]
  typed := by
    rw [Registry.definition_ofClass]
    have hproperties : (comparison.properties.map (·.name)).Nodup := by decide
    have hparams : (comparison.params.map (·.name)).Nodup := by decide
    refine ⟨hproperties, hparams, ?_, .cons (.inr rfl) (.cons (.inr rfl) .nil)⟩
    have hp : (Param.mk "p" .any) ∈ comparison.params := List.mem_cons_self
    have hq : (Param.mk "q" .any) ∈ comparison.params := List.mem_cons_of_mem _ List.mem_cons_self
    intro c hc
    obtain rfl := List.mem_singleton.mp hc
    exact ⟨_, .bool, rfl, .binary (by decide) (by decide) (.param (p := ⟨"p", .any⟩) hp)
      (.param (p := ⟨"q", .any⟩) hq) rfl, .inl rfl⟩

/-- For an integer and a text, the evaluation ends with an error. -/
theorem comparison_fails :
    Ends (Effect.construct Natives.builtin .main [.scalar (.int 1), .scalar (.string "x")] >>=
      Effect.run Natives.builtin {}) (World.ofTypes (.ofClass comparison) ()) (fun _ _ => False)
      fun e _ => e = .operandMismatch "==" "int" "string" := by
  decide +kernel

/-- What is in the class's sheet, for an integer and a text. -/
theorem sheet_comparison :
    ((Registry.ofClass comparison).definition .main).sheet [.int 1, .string "x"] =
      ⟨comparison.properties, comparison.params, [.int 1, .string "x"]⟩ := by
  rw [Registry.definition_ofClass]
  rfl

/-- However deep the evaluation is, the operands are of two types. -/
theorem property_comparison (depth : ℕ) :
    (Sheet.mk comparison.properties comparison.params [.int 1, .string "x"]).property depth "c" =
        .error .tooDeep ∨
      (Sheet.mk comparison.properties comparison.params [.int 1, .string "x"]).property depth "c" =
        .error .mismatched := by
  cases depth with
  | zero => exact .inl rfl
  | succ depth => exact .inr rfl

/-- An integer and a text are compared: the checker says nothing, no property depends on another one,
and nothing is divided or overflows. Yet no evaluation succeeds, and one with enough sweeps ends with
the types of the two. -/
theorem compares_two_types :
    FormulaClass (Natives.builtin : Natives Unit) (.ofClass comparison) .main
        [.int 1, .string "x"] ∧
      Checker.Silent (Checker.checkBinary .eq .any .any ⟨none, ⟨0, 1⟩⟩)
        (.ofTypes (.ofClass comparison)) ∧
      (((Registry.ofClass comparison).definition .main).sheet [.int 1, .string "x"]).IsAcyclic ∧
      (((Registry.ofClass comparison).definition .main).sheet [.int 1, .string "x"]).IsFaultFree ∧
      ∃ root w, Effect.construct Natives.builtin .main [.scalar (.int 1), .scalar (.string "x")]
          (World.ofTypes (.ofClass comparison) ()) = .ok root w ∧
        (∀ settings, ∃ e w', Effect.run Natives.builtin settings root w = .error e w') ∧
        ∃ w', Effect.run Natives.builtin {} root w =
          .error (.operandMismatch "==" "int" "string") w' := by
  have hc := formulaClass_comparison (.int 1) (.string "x")
  obtain ⟨root, w, hconstruct, -, hshows⟩ := hc.construct_and_run Natives.builtin_hasScalars ()
  rw [List.map_cons, List.map_cons, List.map_nil] at hconstruct
  rw [sheet_comparison, Registry.definition_ofClass] at hshows
  have hsilent : Checker.Silent (Checker.checkBinary .eq .any .any ⟨none, ⟨0, 1⟩⟩)
      (.ofTypes (.ofClass comparison)) := by
    decide +kernel
  have hfails : ∃ w', Effect.run Natives.builtin {} root w =
      .error (.operandMismatch "==" "int" "string") w' := by
    obtain ⟨e, w', hrun, rfl⟩ := comparison_fails.exists_error
    rw [bind_of_ok hconstruct] at hrun
    exact ⟨w', hrun⟩
  rw [sheet_comparison]
  refine ⟨hc, hsilent, fun p hp => ?_, fun depth p hp => ?_, root, w, hconstruct,
    fun settings => ?_, hfails⟩
  · obtain ⟨q, ⟨init, hinit, hq⟩, -⟩ := Relation.TransGen.head'_iff.mp hp
    obtain ⟨c, hfind, hinit⟩ := Option.bind_eq_some_iff.mp hinit
    obtain rfl := List.mem_singleton.mp (List.mem_of_find?_eq_some hfind)
    obtain rfl := Option.some.inj hinit
    cases hq
  · obtain rfl := List.mem_singleton.mp hp
    rcases property_comparison depth with h | h <;> rw [h] <;> exact ⟨nofun, nofun⟩
  · refine exists_error_of_ne_ok fun stats w' hrun => ?_
    -- A run that succeeds would show that the property has a value.
    obtain ⟨values, hvalues, -⟩ := hshows _ _ _ hrun
    obtain ⟨v, hvalue⟩ := exists_of_forall₂ hvalues List.mem_cons_self
    obtain ⟨depth, hdepth⟩ := Sheet.value?_eq_some.mp hvalue
    rcases property_comparison depth with h | h <;> cases hdepth.symm.trans h

end ObjectGraph
