import ObjectGraph.Source.Rows
import ObjectGraph.Text.CodePoints
import ObjectGraph.Text.Columns

/-!
# Drawings of places in a text

A drawing shows the row of a text in which a place lies, underlines the place, and hangs a label
from the middle of the underline. Places are ranges of characters; under each character there are
as many columns as it takes on display.
-/

namespace ObjectGraph

/-- A place to underline, in the row where it starts. -/
structure Excerpt where
  /-- The row. -/
  row : Row
  /-- The number of characters before the place in its row. -/
  column : Nat
  /-- The number of characters underlined. -/
  width : Nat
deriving DecidableEq, Repr

namespace Excerpt

/-- The place that a range of characters takes in a text. There is none where the range begins
or has its last character past the end of the text. -/
def ofRange? (text : List Char) (start stop : Nat) : Option Excerpt :=
  if stop ≤ max start (text.length + 1) then
    (Row.holding? text start).map fun row => ⟨row, start - row.start, stop - start⟩
  else none

/-- The one-based number of the row. -/
def line (e : Excerpt) : Nat := e.row.index + 1

/-- Whether the place ends in its row. -/
def isWithinRow (e : Excerpt) : Bool := e.column + e.width ≤ e.row.chars.length

/-- The characters underlined. -/
def underlined (e : Excerpt) : List Char := (e.row.chars.drop e.column).take e.width

/-- The character from which the label hangs, counted in the row. -/
def stem (e : Excerpt) : Nat := e.column + e.width / 2

end Excerpt

namespace Drawing

/-- The columns that a character takes as number `i` of its row. A tab reaches to the next multiple
of four characters, and any other blank takes one column. -/
def columnsAt (i : Nat) (c : Char) : Nat :=
  if c = '\t' then 4 - i % 4 else if Unicode.isBlank c then 1 else Unicode.columns c

/-- A character as number `i` of its row. Blanks are drawn as spaces. -/
def drawn (i : Nat) (c : Char) : List Char :=
  if Unicode.isBlank c then List.replicate (columnsAt i c) ' ' else [c]

/-- A row without the blanks at its end. -/
def rowText (row : List Char) : List Char :=
  (Unicode.trimEnd row).zipIdx.flatMap fun (c, i) => drawn i c

/-- The columns of the first `count` characters of a row. Characters that are not drawn, because
they are blanks at the end or past it, count as one. -/
def rowColumns (row : List Char) (count : Nat) : List Nat :=
  let shown := (Unicode.trimEnd row).zipIdx.map fun (c, i) => columnsAt i c
  (List.range count).map fun i => shown.getD i 1

/-- What is drawn under a character: a sign in its first column, and a sign in each further one. -/
structure Mark where
  /-- The sign in the first column. -/
  head : Char
  /-- The sign in the others. -/
  tail : Char

/-- The marks under the characters of a row, where the character with number `i` takes the `i`th
number of columns. -/
def underRow (mark : Nat → Mark) (columns : List Nat) : List Char :=
  columns.zipIdx.flatMap fun (n, i) =>
    match n with
    | 0 => []
    | n + 1 => (mark i).head :: List.replicate n (mark i).tail

/-- The underline. Its middle is the stem of the arrow, which stands alone where there is nothing
to underline. -/
def underline (e : Excerpt) (i : Nat) : Mark :=
  if i = e.stem then if e.width = 0 then ⟨'│', ' '⟩ else ⟨'┬', '─'⟩
  else if e.column ≤ i ∧ i < e.column + e.width then ⟨'─', '─'⟩
  else ⟨' ', ' '⟩

/-- The arrow from the stem to the label. -/
def arrow (e : Excerpt) (i : Nat) : Mark :=
  if i = e.stem then ⟨'╰', '─'⟩ else if e.stem < i then ⟨'─', '─'⟩ else ⟨' ', ' '⟩

/-- The number of characters with marks under them: the underline ends two before the label. -/
def reach (e : Excerpt) : Nat := e.column + e.width + 2

/-- The lines of a message, without the line feeds, and without carriage returns before these. -/
def messageLines : List Char → List (List Char)
  | [] => []
  | '\n' :: rest => [] :: messageLines rest
  | '\r' :: '\n' :: rest => [] :: messageLines rest
  | c :: rest =>
    match messageLines rest with
    | [] => [[c]]
    | line :: lines => (c :: line) :: lines

/-- A number of spaces. -/
def spaces (count : Nat) : String := String.ofList (List.replicate count ' ')

/-- The lines behind the gutter that say what to try, after a blank one. The lines of the
suggestion stand under one another. -/
def suggestionLines (suggestion : String) : List String :=
  match messageLines suggestion.toList with
  | [] => [""]
  | first :: others =>
    "" :: ("Help: " ++ String.ofList first) ::
      others.map fun line => spaces "Help: ".length ++ String.ofList line

/-- The lines of a drawing below the headline: place, row, underline, arrow and label, and the
suggestion if there is one. The gutter is as wide as the row's number needs. A place that does not
end in its row is named, but the row is not drawn. -/
def lines (label : String) (suggestion : Option String) (e : Excerpt) : List String :=
  let number := Nat.repr e.line
  let gutter := spaces (number.length + 2)
  let columns := rowColumns e.row.chars (reach e)
  let shown :=
    if e.isWithinRow then
      [ s!" {number} │ {String.ofList (rowText e.row.chars)}",
        gutter ++ "│ " ++ String.ofList (underRow (underline e) columns),
        gutter ++ "│ " ++ String.ofList (underRow (arrow e) columns) ++ " " ++ label ]
    else [gutter ++ "│ "]
  [gutter ++ s!"╭─[ <unknown>:{e.line}:{e.column + 1} ]", gutter ++ "│"] ++ shown ++
    ((suggestion.elim [] suggestionLines).map fun line => gutter ++ "│ " ++ line) ++
    [String.ofList (List.replicate (number.length + 2) '─') ++ "╯"]

end Drawing

end ObjectGraph
