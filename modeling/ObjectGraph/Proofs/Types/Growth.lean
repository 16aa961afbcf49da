import ObjectGraph.Proofs.Types.Reachable
import ObjectGraph.Run.Construct

/-!
# Types that evaluation adds

Evaluation registers array types and function types as it meets them. Such types have no members,
so that they bring no expressions into a program (`Registry.Grows`).
-/

namespace ObjectGraph

/-- The expressions that a definition holds: the arguments for the parent, the initializers, and
the bodies of methods. -/
def TypeDef.exprs (d : TypeDef) : List Expr :=
  d.parentArgs ++ d.properties.filterMap (·.initializer) ++
    d.methods.filterMap fun m => m.body.map fun body => .block body.stmts body.result

/-- The arguments for the parent are among the expressions. -/
theorem TypeDef.parentArg_mem_exprs {d : TypeDef} {e : Expr} (he : e ∈ d.parentArgs) :
    e ∈ d.exprs :=
  List.mem_append_left _ (List.mem_append_left _ he)

/-- Initializers are among the expressions. -/
theorem TypeDef.initializer_mem_exprs {d : TypeDef} {p : Property} {init : Expr}
    (hp : p ∈ d.properties) (hinit : p.initializer = some init) : init ∈ d.exprs :=
  List.mem_append_left _ (List.mem_append_right _ (List.mem_filterMap.mpr ⟨p, hp, hinit⟩))

/-- Bodies of methods are among the expressions of the type that declares them. -/
theorem Registry.body_mem_exprs {r : Registry} {m : MethodRef} {body : Body}
    (hbody : (r.method m).body = some body) :
    .block body.stmts body.result ∈ (r.definition m.owner).exprs := by
  rw [Registry.method, List.getD_eq_getElem?_getD] at hbody
  cases hm : (r.definition m.owner).methods[m.index]? with
  | none =>
    rw [hm] at hbody
    cases hbody
  | some method =>
    rw [hm] at hbody
    refine List.mem_append_right _ (List.mem_filterMap.mpr ⟨method, List.mem_of_getElem? hm, ?_⟩)
    exact Option.map_eq_some_iff.mpr ⟨body, hbody, rfl⟩

namespace Registry

/-- The types of `r` are types of `r'`, and what `r'` has besides holds no expressions. -/
structure Grows (r r' : Registry) : Prop extends r.Extends r' where
  /-- New types have no members. -/
  memberless : ∀ {ty : TypeId}, r.size ≤ ty.index → (r'.definition ty).exprs = []

variable {r r' r'' : Registry}

/-- A position that is not registered has an empty definition. -/
theorem definition_of_le {ty : TypeId} (h : r.size ≤ ty.index) : r.definition ty = default := by
  rw [definition, Array.getD_eq_getD_getElem?, Array.getElem?_eq_none h]
  rfl

namespace Grows

/-- Every registry grows into itself. -/
theorem refl : r.Grows r := ⟨.refl, fun h => by rw [definition_of_le h]; rfl⟩

/-- Growth composes. -/
theorem trans (a : r.Grows r') (b : r'.Grows r'') : r.Grows r'' := by
  refine ⟨a.toExtends.trans b.toExtends, fun {ty} h => ?_⟩
  by_cases hty : ty.index < r'.size
  · rw [b.definition hty]
    exact a.memberless h
  · exact b.memberless (Nat.le_of_not_lt hty)

/-- A type without members may be added. -/
theorem insert {d : TypeDef} (hd : d.exprs = []) : r.Grows (Registry.insert d r).2 := by
  refine ⟨.insert d, fun h => ?_⟩
  rw [definition_insert]
  split
  · exact hd
  · rw [definition_of_le h]
    rfl

/-- A type without members may be looked up, and added if it is not there. -/
theorem findOrInsert {d : TypeDef} (hd : d.exprs = []) :
    r.Grows (Registry.findOrInsert d r).2 := by
  unfold Registry.findOrInsert
  cases r.find? d.key with
  | some ty => exact .refl
  | none => exact .insert hd

/-- Growth allows for requests. -/
theorem allows : Allows Grows where
  refl _ := .refl
  trans := .trans
  arrayOf element r := .findOrInsert (d := r.arrayDef element) rfl
  functionOf params result r := .findOrInsert (d := r.functionDef params result) rfl

/-- Binding methods is growing. -/
theorem bindMethods (cls : TypeId) (names : List String) :
    r.Grows (ObjectGraph.bindMethods cls names r).2 := by
  induction names generalizing r with
  | nil => exact .refl
  | cons name names ih =>
    rw [ObjectGraph.bindMethods]
    refine allows.bind .refl fun r' r => ?_
    cases r'.findMethod cls name with
    | none => exact ih
    | some method =>
      exact allows.bind (allows.methodType method) fun ty r => allows.bind ih fun bs r => .refl

end Grows

end Registry

end ObjectGraph
