import ObjectGraph.Types.Registry

/-!
# Bindings of placeholders

While a call is checked, each of the method's placeholders may be bound to a type, or linked to
another placeholder so that the two share whatever either is bound to. Linked placeholders form
groups with at most one type each.
-/

namespace ObjectGraph

/-- Placeholders that stand for one and the same type. -/
structure BindingGroup where
  /-- The placeholders of the group. -/
  members : List TypeId
  /-- The type they stand for, once it is known. -/
  value : Option TypeId
deriving DecidableEq, Repr, Inhabited

/-- The bindings of one call. -/
structure Bindings where
  /-- The placeholders that are being inferred, in declaration order. -/
  params : List TypeId
  /-- The groups. Every inferred placeholder is a member of exactly one. -/
  groups : List BindingGroup
deriving DecidableEq, Repr

namespace Bindings

/-- Infers the given placeholders, of which each starts out unbound and alone. Others are
ordinary types. -/
def ofParams (params : List TypeId) : Bindings :=
  ⟨params, params.eraseDups.map fun p => ⟨[p], none⟩⟩

/-- Infers nothing. -/
def empty : Bindings := ofParams []

/-- Whether the type is one of the placeholders being inferred. -/
def isInferable (b : Bindings) (ty : TypeId) : Bool := b.params.contains ty

/-- The group of a placeholder. -/
def group? (b : Bindings) (param : TypeId) : Option BindingGroup :=
  b.groups.find? (·.members.contains param)

/-- The type that a placeholder is bound to. -/
def value? (b : Bindings) (param : TypeId) : Option TypeId := (b.group? param).bind (·.value)

/-- Binds the group of a placeholder to a type. -/
def bind (b : Bindings) (param ty : TypeId) : Bindings :=
  { b with groups := b.groups.map fun g =>
      if g.members.contains param then { g with value := some ty } else g }

/-- Joins the groups of two placeholders. It fails, and changes nothing, if the groups are bound
to different types. -/
def link (b : Bindings) (p q : TypeId) : Bool × Bindings :=
  match b.group? p, b.group? q with
  | some g, some h =>
    if g = h then (true, b)
    else if g.value.isSome && h.value.isSome && g.value != h.value then (false, b)
    else
      let others := b.groups.filter fun other => other != g && other != h
      (true, { b with groups := ⟨g.members ++ h.members, g.value.or h.value⟩ :: others })
  | _, _ => (false, b)

/-- Every inferred placeholder with its type, in declaration order. Those that the call leaves
open stand for `any`. -/
def resolved (b : Bindings) : TypeArgs := b.params.map fun p => (p, (b.value? p).getD .any)

end Bindings

end ObjectGraph
