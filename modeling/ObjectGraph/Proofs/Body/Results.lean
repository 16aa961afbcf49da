import ObjectGraph.Proofs.Body.Object
import ObjectGraph.Proofs.ObjectJson

/-!
# Calls come to what their bodies say

A property that calls a method with a race-free body comes to what the body's statements come to when
they run one after the other, in whatever order sweeps go through their cells (`evaluates_calls`).

Races are real. A declaration's initializer may not have been evaluated when an assignment below it
changes a variable that it mentions, and then it reads the new value (`overtaken_differs`).
-/

namespace ObjectGraph

variable {σ : Type} {natives : Natives σ}

/-- The JSON of what a body comes to. -/
def GraphJson.ofResult : Option Scalar → Json
  | some v => GraphJson.ofScalar v
  | none => .null

/-- What a lane has come to is shown as its result once it is terminal. -/
theorem Lanes.Runs.shows {L : Lanes} {h : Heap} {lane : Option ℕ} {scope : Option ScopeId}
    {r : Option Scalar} {e : Expr} (hr : L.Runs h lane r scope e) (hterm : e.isTerminal = true) :
    h.Shows e (GraphJson.ofResult r) := by
  cases hr with
  | value hc hresult =>
    obtain ⟨id, u, rfl, hu⟩ := hc.formula.of_isTerminal hterm
    obtain rfl := Option.some.inj (hu.scalar?.symm.trans hc.value)
    rw [hresult]
    exact .scalar hu
  | missing ty hresult =>
    rw [hresult]
    exact .missing ty
  | block => cases hterm
  | within => cases hterm

namespace CallClass

variable {types : Registry} {cls : TypeId} {calls : List Call} {results : List (Option Scalar)}
  {w : World σ} (hc : CallClass natives types cls calls results)

include hc

/-- A new object's properties hold their calls. -/
theorem expr_initialSlot {native : Bool} {i : ℕ} {p : Property}
    (hp : (types.definition cls).properties[i]? = some p) {c : Call} (hi : calls[i]? = some c) :
    (initialSlot native ⟨0⟩ cls ⟨0⟩ p).expr = .scoped ⟨0⟩ c.expr := by
  have hinitializer := congrArg (·[i]?) hc.initializers
  simp only [List.getElem?_map, hp, hi, Option.map_some, Option.some.injEq] at hinitializer
  simp only [initialSlot, hinitializer]

/-- The evaluation of a new object is underway. There are no lanes yet. -/
theorem underway_ofObject (hx : types.Extends w.types) {bindings inherited : List Binding}
    {native : Bool} (hunbound : ∀ b ∈ bindings ++ inherited, ∃ m, b.expr = Expr.unbound m)
    (hheap : w.heap = .ofObject cls bindings inherited
      ((types.definition cls).properties.map (initialSlot native ⟨0⟩ cls ⟨0⟩))) :
    Underway natives types cls calls results w := by
  -- A new object has methods, which are terminal, and properties, which hold calls.
  have hcells {c : Cell} {e : Expr} (he : w.heap.read? c = some e) :
      (∃ m, e = .unbound m) ∨ ∃ i call, c = .slot ⟨0⟩ i ∧ e = .scoped ⟨0⟩ (Call.expr call) := by
    rw [hheap] at he
    rcases Heap.read?_ofObject he with
      ⟨j, b, -, hb, rfl⟩ | ⟨b, hb, rfl⟩ | ⟨i, slot, rfl, hslot, rfl⟩
    · exact .inl (hunbound b (List.mem_append_left _ (List.mem_of_getElem? hb)))
    · exact .inl (hunbound b (List.mem_append_right _ hb))
    · rw [List.getElem?_map] at hslot
      obtain ⟨p, hp, rfl⟩ := Option.map_eq_some_iff.mp hslot
      have hlength := congrArg List.length hc.initializers
      rw [List.length_map, List.length_map] at hlength
      have hi : i < calls.length := hlength ▸ (List.getElem?_eq_some_iff.mp hp).1
      exact .inr ⟨i, calls[i], rfl, hc.expr_initialSlot hp (List.getElem?_eq_getElem hi)⟩
  -- What is said of bindings holds since there are none. The object is new, and so it is alone.
  have hempty : (⟨[], fun _ => none, fun _ => none⟩ : Lanes).Held natives ⟨0⟩ w := by
    refine ⟨⟨fun c h => ?_, fun c h => ?_, fun h => ?_⟩, fun c h => ?_, fun c h => ?_,
      fun h => ?_, ⟨by rw [hheap]; rfl, fun hr => ?_, by rw [hheap]; rfl, fun {c e} he n hn => ?_⟩,
      by rw [hheap]; exact Nat.one_pos, fun {c e} he _ hslot => ?_⟩
    iterate 6 cases h
    · rw [hheap] at hr
      exact Heap.receiver_ofObject hr
    · rcases hcells he with ⟨m, rfl⟩ | ⟨i, call, -, rfl⟩
      · cases hn
      · rw [Heap.handles_scoped, call.handles_expr] at hn
        rw [List.mem_singleton.mp hn]
        trivial
    · rcases hcells he with ⟨m, rfl⟩ | ⟨i, call, heq, -⟩
      · rfl
      · exact absurd heq (hslot i)
  refine ⟨hx, ⟨bindings, inherited, native, hheap ▸ .refl⟩, ⟨_, hempty, fun {i c r} hi _ => ?_⟩,
    fun hsealed => ?_⟩
  · have hlength := congrArg List.length hc.initializers
    rw [List.length_map, List.length_map] at hlength
    have hp : (types.definition cls).properties[i]? = some _ :=
      List.getElem?_eq_getElem (hlength ▸ (List.getElem?_eq_some_iff.mp hi).1)
    refine ⟨_, ?_, .inl rfl⟩
    rw [hheap]
    show (((types.definition cls).properties.map (initialSlot native ⟨0⟩ cls ⟨0⟩))[i]?).map _ = _
    rw [List.getElem?_map, hp, Option.map_some, Option.map_some, hc.expr_initialSlot hp hi]
  · rw [hheap] at hsealed
    cases hsealed

/-- Once the object is final, its JSON shows what the calls come to. -/
theorem toJson_of_sealed (hw : Underway natives types cls calls results w)
    (hsealed : (w.heap.get ⟨0⟩).sealed = true) :
    w.toJson .strict ⟨0⟩ = .ok (.object (((types.definition cls).properties.map (·.name)).zip
      (results.map GraphJson.ofResult))) := by
  have hdefinition : w.types.definition cls = types.definition cls :=
    hw.registry.definition (Registry.lt_size_of_parent hc.parent)
  obtain ⟨L, hL, hlanes⟩ := hw.lanes
  have hlength := hw.length_slots hc
  -- Slots, calls and results go together by their positions.
  have hvalues : List.Forall₂ (fun (slot : Slot) j => w.heap.Shows slot.expr j)
      (w.heap.get ⟨0⟩).slots (results.map GraphJson.ofResult) := by
    rw [List.forall₂_map_right_iff, List.forall₂_iff_get]
    refine ⟨hlength.trans hc.comesTo.length_eq, fun i hi hi' => ?_⟩
    have hcall : calls[i]? = some _ := List.getElem?_eq_getElem (hlength ▸ hi)
    obtain ⟨e, he, hstands⟩ := hlanes hcall (List.getElem?_eq_getElem hi')
    have hterm := hw.final hsealed i e he
    rw [Heap.read?, List.getElem?_eq_getElem hi, Option.map_some, Option.some.injEq] at he
    rw [List.get_eq_getElem, he]
    rcases hstands with rfl | hr
    · cases hterm
    · exact hr.shows hterm
  obtain ⟨bindings, inherited, native, hsince⟩ := hw.since
  have hframes : (w.heap.get ⟨0⟩).slots.map Slot.frame =
      (types.definition cls).properties.map
        fun p => (initialSlot native ⟨0⟩ cls ⟨0⟩ p).frame := by
    rw [hsince.frames Nat.one_pos]
    exact List.map_map
  rw [← hdefinition] at hframes ⊢
  exact World.toJson_of_properties hL.placed hL.alone.payload hframes (hdefinition ▸ hc.visible)
    (hdefinition ▸ hc.names) hvalues

/-- A new object of the class can be constructed, and evaluated in any order. Enough sweeps succeed,
and after a successful run the object's JSON shows what the calls come to. -/
theorem construct_and_run (hn : natives.HasScalars) (host : σ) :
    ∃ root w, Effect.construct natives cls [] (World.ofTypes types host) = .ok root w ∧
      (∀ order, ∃ enough, ∀ sweeps ≥ enough,
        ∃ stats w', Effect.run natives ⟨sweeps, order⟩ root w = .ok stats w') ∧
      ∀ settings stats w', Effect.run natives settings root w = .ok stats w' →
        w'.toJson .strict root = .ok (.object
          (((types.definition cls).properties.map (·.name)).zip
            (results.map GraphJson.ofResult))) := by
  obtain ⟨w, methods, inherited, hx, hunbound, hheap, hconstruct⟩ :=
    Effect.construct_ofTypes natives hc.builtins hc.parent hc.names [] host
  rw [hc.params] at hheap
  have hw := hc.underway_ofObject hx hunbound hheap
  have hev := Underway.evaluation hc hn
  refine ⟨⟨0⟩, w, hconstruct, fun order => ?_, fun settings stats w' hrun => ?_⟩
  · refine ⟨w.remaining ⟨0⟩ (callsWork calls ·.heap) + 1, fun sweeps hsweeps => ?_⟩
    have hends : Ends (Effect.runFrom natives order ⟨0⟩ sweeps {}) w _ _ :=
      hev.run_succeeds hw trivial hsweeps {}
    obtain ⟨stats, w', hrun, -⟩ := hends.exists_ok
    exact ⟨stats, w', hrun⟩
  · obtain ⟨hw', hsealed⟩ := (hev.run_ends hw settings.maxSweeps {}).ok hrun
    exact hc.toJson_of_sealed hw' hsealed

end CallClass

/-- **Calls come to what their bodies say.** In any order, enough sweeps evaluate each property to
what the statements of its method's body come to one after the other, and no number of sweeps
evaluates it to anything else. -/
theorem evaluates_calls (hn : natives.HasScalars) {types : Registry} {cls : TypeId}
    {calls : List Call} {results : List (Option Scalar)}
    (hc : CallClass natives types cls calls results) (host : σ) (order : SweepOrder) :
    (∃ enough, ∀ sweeps ≥ enough, evaluated natives ⟨sweeps, order⟩ types cls [] host =
        .ok (.object (((types.definition cls).properties.map (·.name)).zip
          (results.map GraphJson.ofResult)))) ∧
      ∀ sweeps json, evaluated natives ⟨sweeps, order⟩ types cls [] host = .ok json →
        json = .object (((types.definition cls).properties.map (·.name)).zip
          (results.map GraphJson.ofResult)) := by
  obtain ⟨root, w, hconstruct, hsucceeds, hshows⟩ := hc.construct_and_run hn host
  refine ⟨?_, fun sweeps json hjson => ?_⟩
  · obtain ⟨enough, hruns⟩ := hsucceeds order
    refine ⟨enough, fun sweeps hsweeps => ?_⟩
    obtain ⟨stats, w', hrun⟩ := hruns sweeps hsweeps
    rw [evaluated_of_run hconstruct hrun]
    exact hshows _ _ _ hrun
  · obtain ⟨stats, w', hrun, hshown⟩ := run_of_evaluated hconstruct hjson
    rw [hshows _ _ _ hrun] at hshown
    exact (Except.ok.inj hshown).symm

/-! ## Two classes -/

/-- A call of the method with these statements that the class has at a position. -/
def Call.ofStmts (index : ℕ) (name : String) (params : List Param) (stmts : List Stmt)
    (args : List Scalar) : Call where
  index := index
  method := { name, params, generics := [], result := .int, body := some ⟨stmts, .int⟩,
              declaring := .main }
  body := ⟨stmts, .int⟩
  args := args
  typeArgs := []
  types := (.main, .any, .int)

/-- A class with a property for each call, and the methods that are called. -/
def ClassBody.ofCalls (calls : List (String × Call)) : ClassBody where
  properties := calls.map fun entry => ⟨entry.1, .visible, .int, some entry.2.expr⟩
  methods := calls.map (·.2.method)

/-- A call whose body counts in a local variable and leaves from within a branch. -/
def counting : Call := .ofStmts 0 "count" [⟨"x", .int⟩]
  [.declare "n" .int (.binary .add (.param "x" .int) (.int 1) .int),
    .assign "n" (.binary .mul (.variable "n" .int) (.int 2) .int),
    .branch (.binary .gt (.variable "n" .int) (.param "x" .int) .bool)
      [.declare "k" .int (.binary .sub (.variable "n" .int) (.param "x" .int) .int),
        .result (.variable "k" .int)]
      [],
    .result (.param "x" .int)]
  [.int 2]

/-- A call whose body is empty. -/
def idling : Call := .ofStmts 1 "idle" [] [] []

/-- The class of both calls. -/
def bothCalls : ClassBody := .ofCalls [("a", counting), ("b", idling)]

/-- Counting comes to four, and idling to nothing. -/
theorem callClass_bothCalls :
    CallClass (Natives.builtin : Natives Unit) (.ofClass bothCalls) .main [counting, idling]
      [some (.int 4), none] where
  builtins := Registry.hasBuiltins_ofClass bothCalls
  parent := by rw [Registry.parent, Registry.definition_ofClass]; rfl
  plain := rfl
  anyPlain := rfl
  visible := by
    rw [Registry.definition_ofClass]
    simp [bothCalls, ClassBody.ofCalls]
  names := by
    rw [Registry.definition_ofClass]
    decide
  params := by rw [Registry.definition_ofClass]; rfl
  initializers := by rw [Registry.definition_ofClass]; rfl
  comesTo := by
    rw [Registry.definition_ofClass]
    refine .cons ⟨rfl, by decide, rfl, rfl, rfl, by decide, ?_, ?_⟩
      (.cons ⟨rfl, by decide, rfl, rfl, rfl, by decide, ?_, ?_⟩ .nil)
    · simp [counting, Call.ofStmts, raceFree, Expr.names, Expr.int]
    · show interpret [("x", .int 2)] _ = _
      rw [counting, Call.ofStmts, interpret]
      show interpret [("n", .int 3), ("x", .int 2)] _ = _
      rw [interpret]
      show interpret [("n", .int 6), ("x", .int 2)] _ = _
      rw [interpret]
      show interpret [("n", .int 6), ("x", .int 2)] (_ ++ _) = _
      rw [List.cons_append, interpret]
      show interpret [("k", .int 4), ("n", .int 6), ("x", .int 2)] _ = _
      rw [List.cons_append, interpret]
      rfl
    · rw [idling, Call.ofStmts, raceFree]
    · rw [idling, Call.ofStmts, interpret]

/-- Both calls come to what their bodies say, in reverse order too. -/
theorem evaluates_bothCalls :
    ∃ enough, ∀ sweeps ≥ enough,
      evaluated Natives.builtin ⟨sweeps, .reverse⟩ (.ofClass bothCalls) .main [] () =
        .ok (.object [("a", .int 4), ("b", .null)]) := by
  have h := (evaluates_calls Natives.builtin_hasScalars callClass_bothCalls () .reverse).1
  rw [Registry.definition_ofClass] at h
  exact h

/-- Statements in which an assignment may overtake the initializer above it. -/
def overtaking (init : Expr) : List Stmt :=
  [.declare "n" .int init, .declare "k" .int (.variable "n" .int), .assign "n" (.int 5),
    .result (.variable "k" .int)]

/-- The class with a property that comes to what these statements come to. -/
def overtaken (init : Expr) : ClassBody :=
  .ofCalls [("a", .ofStmts 0 "m" [] (overtaking init) [])]

/-- An assignment that overtakes the initializer of a variable changes what the variable comes to,
although the statements are plain. -/
theorem overtaken_differs :
    let init := Expr.binary .add (.binary .add (.int 1) (.int 2) .int) (.int 3) .int
    ArePlain (overtaking init) ∧ interpret [] (overtaking init) = .ok (some (.int 6)) ∧
      evaluated (Natives.builtin : Natives Unit) {} (.ofClass (overtaken init)) .main [] () =
        .ok (.object [("a", .int 5)]) := by
  intro init
  refine ⟨by decide, ?_, eq_ok_of_showsInt (by decide +kernel)⟩
  rw [overtaking, interpret]
  show interpret [("n", .int 6)] _ = _
  rw [interpret]
  show interpret [("k", .int 6), ("n", .int 6)] _ = _
  rw [interpret]
  show interpret [("k", .int 6), ("n", .int 5)] _ = _
  rw [interpret]
  rfl

end ObjectGraph
