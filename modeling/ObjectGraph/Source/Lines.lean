/-!
# Lines and columns

A line table holds the byte offset at which each line of a text starts. It answers the one-based
line and column of any offset: the line is found by counting the starts at or before the offset,
and the column is the distance from that line's start. An offset past the end belongs to the last
line.
-/

namespace ObjectGraph

/-- The offsets just after each line feed among `bytes`, the first of which lies at `offset`. -/
def startsAfterFeeds : List UInt8 → Nat → List Nat
  | [], _ => []
  | b :: bytes, offset =>
    if b = 10 then (offset + 1) :: startsAfterFeeds bytes (offset + 1)
    else startsAfterFeeds bytes (offset + 1)

/-- A one-based line and a one-based column, counted in bytes. -/
structure Position where
  /-- The line. -/
  line : Nat
  /-- The column. -/
  column : Nat
deriving DecidableEq, Repr

/-- The start offsets of a text's lines, in order. -/
structure LineTable where
  /-- The offsets; the first is zero. -/
  starts : List Nat
deriving DecidableEq, Repr

namespace LineTable

/-- The table of a text: line starts are zero and the offset after each line feed. -/
def ofText (text : String) : LineTable :=
  ⟨0 :: startsAfterFeeds text.toUTF8.data.toList 0⟩

/-- The number of lines: one more than the line feeds. -/
def lineCount (table : LineTable) : Nat := table.starts.length

/-- The line and column of a byte offset. -/
def position (table : LineTable) (offset : Nat) : Position :=
  let line := (table.starts.takeWhile (· ≤ offset)).length - 1
  ⟨line + 1, offset - table.starts.getD line 0 + 1⟩

end LineTable

end ObjectGraph
