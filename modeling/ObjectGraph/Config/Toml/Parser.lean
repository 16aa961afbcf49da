import ObjectGraph.Config.Toml.Document
import ObjectGraph.Config.Toml.Token

/-!
# Reading TOML documents

A document is read line by line. Headers open tables, and the lines after them add values. Values
may be nested up to a fixed depth.
-/

namespace ObjectGraph.Toml

open Scanner

/-- A part of a key. -/
def simpleKey : Scanner String :=
  basicString <|> literalString <|> do
    let chars ← many1 (satisfy fun c => c.isAlphanum || c == '_' || c == '-')
    return .ofList chars

/-- The most parts a key may have, and the most levels that values may be nested. -/
def depthLimit : Nat := 79

/-- A key, as its last part and the parts before. -/
def key : Scanner (List String × String) := do
  let parts ← filter
    (sepBy1 (do blanks; let k ← simpleKey; blanks; return k) (char '.'))
    (·.length ≤ depthLimit)
  match parts.getLast? with
  | some last => return (parts.dropLast, last)
  | none => failure

/-- A key and what follows its equals sign. -/
def keyValue (value : Scanner Value) : Scanner ((List String × String) × Value) := do
  let k ← key
  char '='
  blanks
  return (k, ← value)

/-- The items of an array, with an optional comma after the last, and the closing bracket. -/
def arrayRest (value : Scanner Value) : Scanner Value := do
  let items ← sepBy (do blanksAndLines; let v ← value; blanksAndLines; return v) (char ',')
  if !items.isEmpty then
    let _ ← optional (char ',')
  blanksAndLines
  char ']'
  return .array items

/-- The entries of a table in braces, and the closing brace. -/
def inlineRest (value : Scanner Value) : Scanner Value := do
  let pairs ← sepBy (do let pair ← keyValue value; blanks; return pair) (char ',')
  blanks
  char '\x7d'
  match pairs.foldlM (fun entries ((path, k), v) => Entries.insert path k v entries) [] with
  | some entries => return .table .inline entries
  | none => failure

/-- A value without parts. -/
def simpleValue : Scanner Value :=
  (do return .string (← string)) <|>
  (do dateTime; return .dateTime) <|>
  (do return .float (← float)) <|>
  (do return .integer (← integer)) <|>
  (do text "true"; return .boolean true) <|>
  (do text "false"; return .boolean false)

/-- A value with at most so many levels of arrays and tables around its parts. -/
def value : Nat → Scanner Value
  | 0 => simpleValue
  | depth + 1 =>
    simpleValue <|>
    (do char '['; arrayRest (value depth)) <|>
    (do char '\x7b'; inlineRest (value depth))

/-- The part of a document that has been read. -/
structure Draft where
  /-- The document so far. -/
  root : Entries
  /-- The path of the table that was opened last. -/
  header : List String

/-- Goes on with a change of the document, which may be refused. -/
def Draft.update (p : Draft) (header : List String) (root : Option Entries) :
    Scanner Draft :=
  match root with
  | some root => pure { p with root, header }
  | none => failure

/-- A header with two brackets on each side opens an item of an array of tables; one with single
brackets opens a table. -/
def header (p : Draft) : Scanner Draft :=
  (do
    text "[["
    let (path, k) ← key
    text "]]"
    endOfLine
    p.update (path ++ [k]) (p.root.openItem path k)) <|>
  (do
    char '['
    let (path, k) ← key
    char ']'
    endOfLine
    p.update (path ++ [k]) (p.root.openTable path k))

/-- A line with a key and its value. -/
def entry (p : Draft) : Scanner Draft := do
  let ((path, k), v) ← keyValue (value depthLimit)
  endOfLine
  p.update p.header (p.root.insertUnder p.header path k v)

/-- One line of a document. -/
def line (p : Draft) : Scanner Draft := do
  blanks
  (do newline; return p) <|> (do comment; newline <|> atEnd; return p) <|> header p <|> entry p

/-- Reads lines until the end of the text, at most so many. -/
def lines : Nat → Draft → Scanner Draft
  | 0, p => do
    blanks
    atEnd
    return p
  | count + 1, p => (do blanks; atEnd; return p) <|> do lines count (← line p)

/-- The document that a text is, if it is one. A byte order mark at its start is passed over. -/
def parse? (source : String) : Option Entries :=
  let chars :=
    match source.toList with
    | '\ufeff' :: rest => rest
    | chars => chars
  (lines chars.length ⟨[], []⟩ chars).map (·.1.root)

end ObjectGraph.Toml
