import ObjectGraph.Number.Notation

/-!
# JSON values

The values that reports and evaluated graphs are written as, and their compact text. An object
is the list of its members in the order in which they were first inserted, because that order is
part of the text.
-/

namespace ObjectGraph

/-- A JSON value. -/
inductive Json where
  | null
  | bool (value : Bool)
  | int (value : Int)
  | float (value : Float)
  | string (value : String)
  | array (items : List Json)
  | object (members : List (String × Json))
deriving Inhabited

namespace Json

/-- Adds a member to an object's members. A key that is already there keeps its place and takes
the new value. -/
def insertMember (members : List (String × Json)) (key : String) (value : Json) :
    List (String × Json) :=
  match members with
  | [] => [(key, value)]
  | (k, v) :: rest =>
    if k = key then (key, value) :: rest else (k, v) :: insertMember rest key value

/-- The lowercase hexadecimal digit of a number below sixteen. -/
def hexDigit (n : Nat) : Char := "0123456789abcdef".toList.getD n '0'

/-- The characters that stand for `c` in a JSON string. Quote, backslash and the control
characters are escaped, those with a short form by it; all else stands for itself. -/
def escapeChar (c : Char) : List Char :=
  match c with
  | '"' => ['\\', '"']
  | '\\' => ['\\', '\\']
  | '\n' => ['\\', 'n']
  | '\r' => ['\\', 'r']
  | '\t' => ['\\', 't']
  | '\x08' => ['\\', 'b']
  | '\x0c' => ['\\', 'f']
  | c =>
    if c.toNat < 0x20 then ['\\', 'u', '0', '0', hexDigit (c.toNat / 16), hexDigit (c.toNat % 16)]
    else [c]

/-- A text as a JSON string, with its quotes. -/
def quote (s : String) : String :=
  "\"" ++ String.ofList (s.toList.flatMap escapeChar) ++ "\""

/-- A number with a fraction always shows a fraction or an exponent. JSON has no word for an
infinity or for not-a-number, and they are written as null. -/
def floatText (x : Float) : String :=
  if x.isFinite then NumberNotation.json.text x else "null"

mutual

/-- The compact text of a value, without spaces. -/
def text : Json → String
  | .null => "null"
  | .bool true => "true"
  | .bool false => "false"
  | .int n => toString n
  | .float x => floatText x
  | .string s => quote s
  | .array [] => "[]"
  | .array (item :: items) => "[" ++ text item ++ itemsText items ++ "]"
  | .object [] => "\x7b\x7d"
  | .object ((key, value) :: members) =>
    "\x7b" ++ quote key ++ ":" ++ text value ++ membersText members ++ "\x7d"

/-- The items after the first, each with the comma before it. -/
def itemsText : List Json → String
  | [] => ""
  | item :: items => "," ++ text item ++ itemsText items

/-- The members after the first, each with the comma before it. -/
def membersText : List (String × Json) → String
  | [] => ""
  | (key, value) :: members => "," ++ quote key ++ ":" ++ text value ++ membersText members

end

end Json

end ObjectGraph
