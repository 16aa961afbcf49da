/-!
# Rows of a displayed text

A text is displayed in rows. A row ends after a separator, of which there are seven; a carriage
return and a line feed behind it are one separator. The rows of a text together are the text
(`flatten_splitRows`). This is a finer division than that of a line table, whose lines end at line
feeds alone.
-/

namespace ObjectGraph

/-- Whether a row ends after a character: carriage return, line feed, vertical tab, form feed, next
line, line separator and paragraph separator. -/
def isRowSeparator (c : Char) : Bool :=
  ['\r', '\n', '\x0b', '\x0c', '\u0085', '\u2028', '\u2029'].contains c

/-- The rows of a text, each with its separator. -/
def splitRows : List Char → List (List Char)
  | [] => []
  | '\r' :: '\n' :: rest => ['\r', '\n'] :: splitRows rest
  | c :: rest =>
    if isRowSeparator c then [c] :: splitRows rest
    else
      match splitRows rest with
      | [] => [[c]]
      | row :: rows => (c :: row) :: rows

/-- Splitting a text into rows loses nothing. -/
theorem flatten_splitRows (text : List Char) : (splitRows text).flatten = text := by
  fun_induction splitRows text <;> simp_all

/-- A row of a text. -/
structure Row where
  /-- The number of rows before it. -/
  index : Nat
  /-- The number of characters before it. -/
  start : Nat
  /-- Its characters, with the separator. -/
  chars : List Char
deriving DecidableEq, Repr

namespace Row

/-- Numbers rows that follow one another, the first of which has `index` rows and `start`
characters before it. -/
def number : Nat → Nat → List (List Char) → List Row
  | _, _, [] => []
  | index, start, chars :: rest =>
    ⟨index, start, chars⟩ :: number (index + 1) (start + chars.length) rest

/-- The rows of a text. The empty text has one row. -/
def ofText (text : List Char) : List Row :=
  if text.isEmpty then [⟨0, 0, []⟩] else number 0 0 (splitRows text)

/-- The row of a text that holds the character with the given index. The index just past the text
belongs to the last row, and there is no row for a larger one. -/
def holding? (text : List Char) (index : Nat) : Option Row :=
  if index ≤ text.length then ((ofText text).takeWhile (·.start ≤ index)).getLast? else none

end Row

end ObjectGraph
