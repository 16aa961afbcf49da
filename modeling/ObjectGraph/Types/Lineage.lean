import ObjectGraph.Types.Registry

/-!
# Lineages

A type's lineage is the type followed by its parent, its parent's parent and so on. Subclass
tests and member lookups search it from its near end, so that the most derived declaration wins.
-/

namespace ObjectGraph.Registry

/-- The proper ancestors of a type, nearest first, as far as `fuel` reaches. -/
def ancestorsWithin (r : Registry) : Nat → TypeId → List TypeId
  | 0, _ => []
  | fuel + 1, ty =>
    match r.parent ty with
    | some parent => parent :: r.ancestorsWithin fuel parent
    | none => []

/-- A type and its ancestors, nearest first. No lineage without a loop is longer than the registry.
Where parents run in a loop, the lineage is cut at that length, while a walk along them has no end. -/
def lineage (r : Registry) (ty : TypeId) : List TypeId := ty :: r.ancestorsWithin r.size ty

/-- A type and its ancestors, the root first. -/
def ancestors (r : Registry) (ty : TypeId) : List TypeId := (r.lineage ty).reverse

/-- Whether `sub` is `sup` or extends it, directly or through others. -/
def isSubclass (r : Registry) (sub sup : TypeId) : Bool := (r.lineage sub).contains sup

/-- The nearest declaration of a property, with the type that declares it. -/
def findProperty (r : Registry) (ty : TypeId) (name : String) : Option (TypeId × Property) :=
  (r.lineage ty).findSome? fun t => ((r.definition t).property? name).map (t, ·)

/-- The nearest declaration of a method. -/
def findMethod (r : Registry) (ty : TypeId) (name : String) : Option MethodRef :=
  (r.lineage ty).findSome? fun t => ((r.definition t).methodIndex? name).map (⟨t, ·⟩)

end ObjectGraph.Registry
