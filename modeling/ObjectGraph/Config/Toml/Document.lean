/-!
# TOML documents

A document is a table of values by key. Tables come about in several ways (under a header, on the
way to a header, through a key with points, or as a value), and the way decides whether they may
be added to later.
-/

namespace ObjectGraph.Toml

/-- How a table came about. -/
inductive TableOrigin where
  /-- By a header of its own. -/
  | header
  /-- On the way to a header. -/
  | implied
  /-- Through a key with points. -/
  | dotted
  /-- As a value in braces. It takes no additions. -/
  | inline
deriving DecidableEq, Repr

/-- A value. -/
inductive Value where
  | string (text : String)
  | integer (n : Int)
  | float (x : Float)
  | boolean (b : Bool)
  /-- A date, a time, or both. -/
  | dateTime
  | array (items : List Value)
  | table (origin : TableOrigin) (entries : List (String × Value))
  /-- An array whose items are tables under headers, the latest first. -/
  | tables (items : List (List (String × Value)))

/-- The entries of a table. -/
abbrev Entries := List (String × Value)

namespace Entries

/-- Changes the value of a key. The change is given the present value, if there is one, and may
refuse. -/
def alter (change : Option Value → Option Value) (key : String) : Entries → Option Entries
  | [] => (change none).map fun v => [(key, v)]
  | (k, v) :: rest =>
    if k = key then (change (some v)).map fun v => (k, v) :: rest
    else (alter change key rest).map ((k, v) :: ·)

/-- Changes the table that a path leads to, given how it came about and its entries. Tables that
are not there yet are made, with the given origin. A path through an array of tables goes to the
latest of them. A key with points does not lead into a table that has a header. -/
def descend (origin : TableOrigin) (change : TableOrigin → Entries → Option Entries) :
    TableOrigin → List String → Entries → Option Entries
  | here, [], entries => change here entries
  | _, key :: path, entries =>
    entries.alter (fun present =>
      match present with
      | none => (descend origin change origin path []).map (.table origin)
      | some (.table o inner) =>
        if o = .inline ∨ (origin = .dotted ∧ o = .header) then none
        else (descend origin change o path inner).map (.table o)
      | some (.tables (latest :: before)) =>
        (descend origin change .header path latest).map fun latest => .tables (latest :: before)
      | some _ => none) key

/-- Adds a value under a key with points to a table that did not come from such a key. -/
def insert (path : List String) (key : String) (value : Value) (entries : Entries) :
    Option Entries :=
  let change (here : TableOrigin) (entries : Entries) : Option Entries :=
    if path.isEmpty || here == .dotted then
      entries.alter (fun present => if present.isSome then none else some value) key
    else none
  entries.descend .dotted change .header path

/-- Opens the table of a header. One that exists must have come about on the way to another
header. -/
def openTable (path : List String) (key : String) (entries : Entries) : Option Entries :=
  let openEntry : Option Value → Option Value
    | none => some (.table .header [])
    | some (.table .implied inner) => some (.table .header inner)
    | some _ => none
  entries.descend .implied (fun _ inner => inner.alter openEntry key) .header path

/-- Opens a new table at the end of an array of tables. -/
def openItem (path : List String) (key : String) (entries : Entries) : Option Entries :=
  let openEntry : Option Value → Option Value
    | none => some (.tables [[]])
    | some (.tables items) => some (.tables ([] :: items))
    | some _ => none
  entries.descend .implied (fun _ inner => inner.alter openEntry key) .header path

/-- Adds a value to the table that the last header opened. -/
def insertUnder (header : List String) (path : List String) (key : String) (value : Value)
    (entries : Entries) : Option Entries :=
  entries.descend .implied (fun _ inner => inner.insert path key value) .header header

end Entries

end ObjectGraph.Toml
