import ObjectGraph.Types.Registry

/-!
# Shapes

Array and function types are built from other types. The functions here look through that
structure: for poison or placeholders anywhere in it, or to rebuild it with placeholders replaced.
The parts of a type are registered before the type itself, so the size of the registry bounds
how deep a shape can be.
-/

namespace ObjectGraph.Registry

/-- Whether some type in the shape of `ty` has a kind that passes the test, as far as `fuel`
reaches. -/
def shapeHasWithin (r : Registry) (test : TypeKind → Bool) : Nat → TypeId → Bool
  | 0, _ => false
  | fuel + 1, ty =>
    test (r.kind ty) ||
      match r.kind ty with
      | .array element => r.shapeHasWithin test fuel element
      | .function params result =>
        r.shapeHasWithin test fuel result || params.any (r.shapeHasWithin test fuel)
      | _ => false

/-- Whether a poison type appears anywhere in the shape of a type. -/
def containsPoison (r : Registry) (ty : TypeId) : Bool :=
  r.shapeHasWithin (· == .poison) r.size ty

/-- Whether a placeholder appears anywhere in the shape of a type. -/
def containsPlaceholder (r : Registry) (ty : TypeId) : Bool :=
  r.shapeHasWithin (· == .placeholder) r.size ty

/-- Rebuilds a shape with placeholders replaced, as far as `fuel` reaches. -/
def substituteWithin (replace : TypeId → Option TypeId) : Nat → TypeId → Registering TypeId
  | 0, ty => pure ty
  | fuel + 1, ty => do
    match (← get).kind ty with
    | .placeholder => pure ((replace ty).getD ty)
    | .array element => arrayOf (← substituteWithin replace fuel element)
    | .function params result =>
      let result ← substituteWithin replace fuel result
      functionOf (← params.mapM (substituteWithin replace fuel)) result
    | .nominal | .poison => pure ty

/-- Rebuilds a type with each placeholder replaced by what `replace` gives for it. Those it gives
nothing for stay in place. -/
def substitute (replace : TypeId → Option TypeId) (ty : TypeId) : Registering TypeId := do
  substituteWithin replace (← get).size ty

end ObjectGraph.Registry
