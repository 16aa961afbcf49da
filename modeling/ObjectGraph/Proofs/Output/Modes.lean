import ObjectGraph.Proofs.Output.Outline

/-!
# The two modes of rendering

Rendering by force comes to a result for every graph, and to the result of strict rendering wherever
that has one. JSON and text fail together in strict mode, and with the same error, since they are
formats of one outline (`World.strict_and_forced`). The relation of the two modes is
`Rendering.Completes`, which is kept by every step of the traversal.
-/

namespace ObjectGraph

variable {σ α β : Type} {w : World σ}

namespace Rendering

/-- The forced outcome is a result, and that of the strict one if there is one. -/
def Completes (forced strict : Except EvalError α) : Prop :=
  ∃ a, forced = .ok a ∧ ∀ b, strict = .ok b → b = a

namespace Completes

variable {forced strict : Except EvalError α}

/-- Where there is nothing to replace, both modes have the same result. -/
theorem ok (a : α) : Completes (.ok a) (.ok a : Except EvalError α) :=
  ⟨a, rfl, fun _ h => (Except.ok.inj h).symm⟩

/-- The replacement of a value is nothing that strict rendering comes to. -/
theorem replaced (error : String → EvalError) (path : String) (a : α) :
    Completes (replaceOr .force error path a) (replaceOr .strict error path a) :=
  ⟨a, rfl, fun _ h => by cases h⟩

/-- The rule for sequences. -/
theorem bind {next next' : α → Except EvalError β} (h : Completes forced strict)
    (hnext : ∀ a, Completes (next a) (next' a)) :
    Completes (forced >>= next) (strict >>= next') := by
  obtain ⟨a, rfl, hstrict⟩ := h
  obtain ⟨b, hb, hb'⟩ := hnext a
  refine ⟨b, hb, fun c hc => ?_⟩
  cases strict with
  | error e => cases hc
  | ok a' =>
    rw [hstrict a' rfl] at hc
    exact hb' c hc

/-- The rule for what is made of a rendering. -/
theorem map (h : Completes forced strict) (f : α → β) :
    Completes (forced.map f) (strict.map f) := by
  obtain ⟨a, rfl, hstrict⟩ := h
  refine ⟨f a, rfl, fun b hb => ?_⟩
  cases strict with
  | error e => cases hb
  | ok a' =>
    rw [← Except.ok.inj hb, hstrict a' rfl]

/-- The rule for optional results that are there. -/
theorem of_map_some (h : Completes (forced.map some) (strict.map some)) :
    Completes forced strict := by
  obtain ⟨a, hforced, hstrict⟩ := h
  cases forced with
  | error e => cases hforced
  | ok a' =>
    refine ⟨a', rfl, fun b hb => ?_⟩
    have hb' : some b = a := hstrict (some b) (by rw [hb]; rfl)
    exact Option.some.inj (hb'.trans (Except.ok.inj hforced).symm)

end Completes

end Rendering

open Rendering

namespace Outline

/-- The two outlines of a value. -/
theorem completes_ofExpr {forced strict : String → InstanceId → Except EvalError Outline}
    {path : String} {e : Expr}
    (h : ∀ r, e = .object r → Completes (forced path r) (strict path r)) :
    Completes (ofExpr w .force forced path e) (ofExpr w .strict strict path e) := by
  cases e with
  | object id => exact h id rfl
  | missing ty => exact .ok Outline.missing
  | function method receiver => exact .ok Outline.omitted
  | unbound method => exact .ok Outline.omitted
  | _ => exact .replaced .unreduced path _

/-- The two outlines of parts. -/
theorem completes_ofParts {forced strict : String → Expr → Except EvalError Outline} {path : String}
    {parts : List (String × Expr)}
    (h : ∀ part ∈ parts, ∀ path, Completes (forced path part.2) (strict path part.2)) :
    Completes (ofParts forced path parts) (ofParts strict path parts) := by
  induction parts with
  | nil => exact .ok []
  | cons part parts ih =>
    obtain ⟨hpart, hparts⟩ := List.forall_mem_cons.mp h
    exact (hpart _).bind fun outline => (ih hparts).bind fun rest => .ok _

end Outline

namespace World

/-- The two outlines of an instance. -/
theorem completes_outline (around : List InstanceId) (path : String) (id : InstanceId) :
    Completes (w.outline .force around path id) (w.outline .strict around path id) := by
  induction around, path, id using World.outline.induct w with
  | case1 around path id hin =>
    rw [outline_of_inside hin, outline_of_inside hin]
    exact .replaced .cycle path Outline.cycle
  | case2 around path id hin hplaced ih =>
    have hout : around.contains id = false := Bool.eq_false_iff.mpr hin
    rw [outline_of_outside hout, outline_of_outside hout]
    exact (Outline.completes_ofParts fun part _ path =>
      Outline.completes_ofExpr fun r _ => ih path r).map (w.assemble id)
  | case3 around path id hin hplaced =>
    rw [outline, outline, if_neg hin, if_neg hin, if_neg hplaced, if_neg hplaced]
    exact .ok (w.assemble id [])

/-- **Strict rendering and rendering by force.** By force every graph has its JSON and its text, and
these are those of strict mode wherever strict mode has them. In strict mode the JSON fails exactly
if the text does, and with the same error at the same path. The bound on the depth of the two
renderings is never met: any other bound above the number of instances gives the same. -/
theorem strict_and_forced (w : World σ) (root : InstanceId) :
    Completes (w.toJson .force root) (w.toJson .strict root) ∧
      Completes (w.toText .force root) (w.toText .strict root) ∧
      (∀ error, w.toJson .strict root = .error error ↔ w.toText .strict root = .error error) ∧
      ∀ mode fuel, w.heap.instances.size < fuel →
        GraphJson.ofInstance w mode fuel [] "" root = w.toJson mode root ∧
          GraphText.ofInstance w mode fuel [] 0 "" root = w.toText mode root := by
  -- JSON and text are formats of one outline, so that the modes are compared there.
  have houtline := w.completes_outline [] "" root
  refine ⟨.of_map_some ?_, .of_map_some ?_, fun error => ?_, fun mode fuel hfuel => ⟨?_, ?_⟩⟩
  · rw [toJson_eq_outline, toJson_eq_outline]
    exact houtline.map Outline.json
  · rw [toText_eq_outline, toText_eq_outline]
    exact houtline.map (Outline.text 0)
  · exact toJson_eq_error_iff.trans toText_eq_error_iff.symm
  · refine eq_of_map_some ?_
    rw [GraphJson.ofInstance_eq_outline [] "" root (Nat.lt_of_le_of_lt (w.unentered_le []) hfuel),
      toJson_eq_outline]
  · refine eq_of_map_some ?_
    rw [GraphText.ofInstance_eq_outline [] 0 "" root
      (Nat.lt_of_le_of_lt (w.unentered_le []) hfuel), toText_eq_outline]

end World

end ObjectGraph
