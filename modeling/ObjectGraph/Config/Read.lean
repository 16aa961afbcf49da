import ObjectGraph.Config.Settings
import ObjectGraph.Config.Toml.Parser

/-!
# Reading settings

Settings are read from the `eval` table of a TOML document. What the table does not mention keeps
its default, and what it mentions besides is ignored. The table may also be written as an array of
its values in order. An order is written as its name, or as a table or key of that name with
nothing in it.
-/

namespace ObjectGraph

/-- Why settings cannot be read. -/
inductive SettingsError where
  /-- The file cannot be read. -/
  | unreadable (path : String)
  /-- The text is no document, or a setting has the wrong type. -/
  | malformed
  /-- No sweep is allowed. -/
  | noSweeps
deriving DecidableEq, Repr

/-- The error in one sentence. -/
def SettingsError.message : SettingsError → String
  | unreadable path => "Failed to read " ++ path
  | malformed => "Failed to parse config"
  | noSweeps => "Failed to parse config: `max_sweeps` must be at least 1"

namespace Settings

open Toml (Value Entries)

/-- The number that a value allows for sweeps. -/
def sweepsOf? : Value → Option Nat
  | .integer n => if 0 ≤ n then some n.toNat else none
  | _ => none

/-- Whether nothing is inside of a table or array. -/
def isHollow : Value → Bool
  | .array items => items.isEmpty
  | .table _ entries => entries.isEmpty
  | _ => false

/-- The order that a value names. -/
def orderOf? : Value → Option SweepOrder
  | .string name => SweepOrder.ofName? name
  | .table _ [(name, content)] => if isHollow content then SweepOrder.ofName? name else none
  | _ => none

/-- Takes over a setting from an optional value. -/
def withSetting {α : Type} (value : Option Value) (read : Value → Option α)
    (store : Settings → α → Settings) (s : Settings) : Option Settings :=
  match value with
  | none => some s
  | some v => (read v).map (store s)

/-- The settings with the given values, of which each may be left out. -/
def ofValues (sweeps order : Option Value) : Option Settings := do
  let s ← withSetting sweeps sweepsOf? (fun s n => { s with maxSweeps := n }) {}
  withSetting order orderOf? (fun s o => { s with order := o }) s

/-- The settings that a value holds. A date holds none, and leaves the defaults. -/
def ofValue? : Value → Option Settings
  | .table _ entries => ofValues (entries.lookup "max_sweeps") (entries.lookup "property_order")
  | .array items => ofValues items[0]? items[1]?
  | .tables items =>
    ofValues (items.reverse[0]?.map (.table .header)) (items.reverse[1]?.map (.table .header))
  | .dateTime => some {}
  | _ => none

/-- The settings that a document holds. -/
def ofText (source : String) : Except SettingsError Settings :=
  match Toml.parse? source with
  | none => .error .malformed
  | some entries =>
    match (entries.lookup "eval").elim (some {}) ofValue? with
    | none => .error .malformed
    | some s => if s.maxSweeps = 0 then .error .noSweeps else .ok s

/-- The settings that a file holds, given its contents or nothing if it cannot be read. -/
def ofFile (path : String) (contents : Option String) : Except SettingsError Settings :=
  match contents with
  | some source => ofText source
  | none => .error (.unreadable path)

end Settings

end ObjectGraph
