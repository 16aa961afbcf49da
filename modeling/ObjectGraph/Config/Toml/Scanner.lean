/-!
# Scanners

A scanner takes a piece off the front of a text, or refuses the text. Scanners are put together
from a few building blocks. Repetition is bounded by the length of the text, which is enough
because each round takes at least one character.
-/

namespace ObjectGraph.Toml

/-- A step that reads from the front of a text and answers what it read. -/
abbrev Scanner (α : Type) := StateT (List Char) Option α

namespace Scanner

variable {α : Type}

/-- The next character, if it passes the test. -/
def satisfy (test : Char → Bool) : Scanner Char
  | c :: rest => if test c then some (c, rest) else none
  | [] => none

/-- The given character. -/
def char (expected : Char) : Scanner Unit := do
  let _ ← satisfy (· == expected)

/-- The given text. -/
def text (expected : String) : Scanner Unit := expected.toList.forM char

/-- The end of the text. -/
def atEnd : Scanner Unit
  | [] => some ((), [])
  | _ :: _ => none

/-- What the scanner reads in at most `count` rounds. -/
def manyUpTo (p : Scanner α) : Nat → Scanner (List α)
  | 0 => pure []
  | count + 1 => do
    match ← optional p with
    | some a => return a :: (← manyUpTo p count)
    | none => return []

/-- What the scanner reads until it refuses the rest. -/
def many (p : Scanner α) : Scanner (List α) := fun cs => manyUpTo p cs.length cs

/-- As `many`, but at least one. -/
def many1 (p : Scanner α) : Scanner (List α) := do
  let first ← p
  return first :: (← many p)

/-- One or more with separators between them. -/
def sepBy1 (p : Scanner α) (separator : Scanner Unit) : Scanner (List α) := do
  let first ← p
  return first :: (← many (do separator; p))

/-- None or more with separators between them. -/
def sepBy (p : Scanner α) (separator : Scanner Unit) : Scanner (List α) :=
  sepBy1 p separator <|> pure []

/-- Exactly `count` in a row. -/
def exactly (p : Scanner α) : Nat → Scanner (List α)
  | 0 => pure []
  | count + 1 => do
    let a ← p
    return a :: (← exactly p count)

/-- What the scanner reads, if the test holds of it. -/
def filter (p : Scanner α) (test : α → Bool) : Scanner α := do
  let a ← p
  if test a then return a else failure

end Scanner

end ObjectGraph.Toml
