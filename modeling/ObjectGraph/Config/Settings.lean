/-!
# Settings

How an evaluation is run: how many sweeps it may take, and in which order a sweep goes through
what it has found. The result must not depend on the order.
-/

namespace ObjectGraph

/-- The order in which a sweep visits scopes, instances and their cells. -/
inductive SweepOrder where
  /-- As discovered and declared. -/
  | declared
  /-- The exact reverse. -/
  | reverse
deriving DecidableEq, Repr

namespace SweepOrder

/-- A list in the order. -/
def arrange {α : Type} (order : SweepOrder) (items : List α) : List α :=
  match order with
  | declared => items
  | reverse => items.reverse

/-- The order's name in a settings file. -/
def name : SweepOrder → String
  | declared => "declared"
  | reverse => "reverse"

/-- The order of a name. -/
def ofName? (text : String) : Option SweepOrder :=
  [declared, reverse].find? (·.name == text)

end SweepOrder

/-- The settings of an evaluation. -/
structure Settings where
  /-- The sweeps allowed before evaluation counts as not ending. -/
  maxSweeps : Nat := 10000
  /-- The order within a sweep. -/
  order : SweepOrder := .declared
deriving DecidableEq, Repr

end ObjectGraph
