import ObjectGraph.Config.Toml.Scanner
import ObjectGraph.Number.Integer
import ObjectGraph.Number.Read

/-!
# Tokens of TOML documents

Blanks, comments, strings, numbers and dates, after version 1.0 of the format. Only what a
settings file can show is kept of a value: of a date nothing but that it is one.
-/

namespace ObjectGraph.Toml

open Scanner

/-! ## Blanks -/

/-- A space or a tab. -/
def blank : Scanner Unit := do
  let _ ← satisfy fun c => c == ' ' || c == '\t'

/-- Spaces and tabs. -/
def blanks : Scanner Unit := do
  let _ ← many blank

/-- The end of a line. A carriage return counts only before a line feed. -/
def newline : Scanner Unit := char '\n' <|> text "\x0d\n"

/-- Whether a character may stand in a comment: no control character but the tab. -/
def isCommentChar (c : Char) : Bool := c == '\t' || (0x20 ≤ c.toNat && c.toNat != 0x7f)

/-- A comment, up to the end of its line. -/
def comment : Scanner Unit := do
  char '#'
  let _ ← many (satisfy isCommentChar)

/-- What may follow on a line that is complete, and the end of the line. -/
def endOfLine : Scanner Unit := do
  blanks
  let _ ← optional comment
  newline <|> atEnd

/-- Blanks, line ends, and comments up to their line ends. -/
def blanksAndLines : Scanner Unit := do
  let _ ← many (blank <|> newline <|> do comment; newline)

/-! ## Strings -/

/-- The value of a hexadecimal digit. -/
def hexValue? (c : Char) : Option Nat :=
  if c.isDigit then some (c.toNat - '0'.toNat)
  else if 'a' ≤ c ∧ c ≤ 'f' then some (c.toNat - 'a'.toNat + 10)
  else if 'A' ≤ c ∧ c ≤ 'F' then some (c.toNat - 'A'.toNat + 10)
  else none

/-- A character given by so many hexadecimal digits of its code point. -/
def codePoint (digits : Nat) : Scanner Char := do
  let values ← exactly (satisfy fun c => (hexValue? c).isSome) digits
  let n := values.foldl (fun n c => 16 * n + (hexValue? c).getD 0) 0
  if n.isValidChar then return .ofNat n else failure

/-- A character given by a backslash and what follows. -/
def escape : Scanner Char := do
  char '\\'
  match ← satisfy fun _ => true with
  | 'b' => return '\x08'
  | 't' => return '\t'
  | 'n' => return '\n'
  | 'f' => return '\x0c'
  | 'r' => return '\r'
  | '"' => return '"'
  | '\\' => return '\\'
  | 'u' => codePoint 4
  | 'U' => codePoint 8
  | _ => failure

/-- A character that stands for itself in a basic string. -/
def basicChar : Scanner Char := satisfy fun c => isCommentChar c && c != '"' && c != '\\'

/-- A character that stands for itself in a literal string. -/
def literalChar : Scanner Char := satisfy fun c => isCommentChar c && c != '\''

/-- Quotes inside a string of several lines: one or two that are not part of a longer run. -/
def innerQuotes (quote : Char) : Scanner (List Char) := fun cs =>
  let run := cs.takeWhile (· == quote)
  if run.length = 1 ∨ run.length = 2 then some (run, cs.drop run.length) else none

/-- The end of a string of several lines: three quotes, before which up to two more belong to the
string. -/
def closingQuotes (quote : Char) : Scanner (List Char) := fun cs =>
  let run := cs.takeWhile (· == quote)
  if run.length < 3 then none
  else
    let inner := min (run.length - 3) 2
    some (run.take inner, cs.drop (inner + 3))

/-- A backslash at the end of a line takes away the line end and all blanks and line ends after
it. -/
def continuation : Scanner Unit := do
  char '\\'
  blanks
  newline
  let _ ← many (newline <|> blank)

/-- A string of several lines, after its opening quotes. A line end right after them is not part
of it. -/
def multilineRest (quote : Char) (piece : Scanner (List Char)) : Scanner String := do
  let _ ← optional newline
  let pieces ← many (piece <|> (do newline; return ['\n']) <|> innerQuotes quote)
  return .ofList (pieces.flatten ++ (← closingQuotes quote))

/-- A string in double quotes, with escapes. -/
def basicString : Scanner String := do
  char '"'
  let chars ← many (basicChar <|> escape)
  char '"'
  return .ofList chars

/-- A string in single quotes, without escapes. -/
def literalString : Scanner String := do
  char '\''
  let chars ← many literalChar
  char '\''
  return .ofList chars

/-- A string in three double quotes. -/
def multilineBasic : Scanner String := do
  text "\"\"\""
  multilineRest '"'
    ((do return [← basicChar]) <|> (do return [← escape]) <|> (do continuation; return []))

/-- A string in three single quotes. -/
def multilineLiteral : Scanner String := do
  text "'''"
  multilineRest '\'' (do return [← literalChar])

/-- A string of any form. -/
def string : Scanner String :=
  multilineBasic <|> multilineLiteral <|> basicString <|> literalString

/-! ## Numbers -/

/-- A digit. -/
def digit : Scanner Char := satisfy Char.isDigit

/-- Digits that pass the test, with single underscores between them left out. -/
def underscored (test : Char → Bool) : Scanner (List Char) := do
  let first ← satisfy test
  return first :: (← many (do
    let _ ← optional (char '_')
    satisfy test))

/-- An optional sign. -/
def sign : Scanner (List Char) := do
  return (← optional (satisfy fun c => c == '+' || c == '-')).toList

/-- A signed whole number in decimal digits, without leading zeros. -/
def decimalDigits : Scanner (List Char) := do
  let s ← sign
  let digits ← filter (underscored Char.isDigit) fun digits =>
    digits.length == 1 || digits.head? != some '0'
  return s ++ digits

/-- The digits of a number in base sixteen, eight or two, as its value. -/
def radixDigits (mark : String) (base : Nat) : Scanner Int := do
  text mark
  let digits ← underscored fun c => (hexValue? c).any (· < base)
  return (digits.foldl (fun n c => base * n + (hexValue? c).getD 0) 0 : Nat)

/-- The value of signed decimal digits. -/
def signedValue : List Char → Int
  | '-' :: digits => -(NumberText.digitsValue digits : Int)
  | '+' :: digits => NumberText.digitsValue digits
  | digits => NumberText.digitsValue digits

/-- A whole number, which must fit into 64 bits. -/
def integer : Scanner Int :=
  filter
    (radixDigits "0x" 16 <|> radixDigits "0o" 8 <|> radixDigits "0b" 2 <|>
      (do return signedValue (← decimalDigits)))
    fun n => (Integer.ofInt? n).isSome

/-- An exponent. -/
def exponent : Scanner (List Char) := do
  let mark ← satisfy fun c => c == 'e' || c == 'E'
  let s ← sign
  return mark :: s ++ (← underscored Char.isDigit)

/-- A fraction. -/
def fraction : Scanner (List Char) := do
  char '.'
  return '.' :: (← underscored Char.isDigit)

/-- A number with a fraction or an exponent, or one of the words for infinity and not-a-number.
A number that is too large is refused. -/
def float : Scanner Float := do
  let numeral : Scanner Float := do
    let whole ← decimalDigits
    let rest ← exponent <|> do
      let f ← fraction
      return f ++ ((← optional exponent).getD [])
    match readFloat? (.ofList (whole ++ rest)) with
    | some x => if x == 1.0 / 0.0 then failure else return x
    | none => failure
  let word : Scanner Float := do
    let s ← sign
    let x ← (do text "inf"; return 1.0 / 0.0) <|> (do text "nan"; return 0.0 / 0.0)
    return if s == ['-'] then -x else x
  numeral <|> word

/-! ## Dates -/

/-- A number of so many digits, in the given range. -/
def field (digits low high : Nat) : Scanner Nat := do
  filter (do return NumberText.digitsValue (← exactly digit digits)) fun n =>
    low ≤ n && n ≤ high

/-- The number of days in a month. -/
def daysIn (year month : Nat) : Nat :=
  if month = 2 then
    if year % 4 = 0 ∧ (year % 100 ≠ 0 ∨ year % 400 = 0) then 29 else 28
  else if month = 4 ∨ month = 6 ∨ month = 9 ∨ month = 11 then 30
  else 31

/-- A day of the calendar. -/
def date : Scanner Unit := do
  let year ← field 4 0 9999
  char '-'
  let month ← field 2 1 12
  char '-'
  let _ ← field 2 1 (daysIn year month)

/-- A time of the day, which may be a leap second. -/
def time : Scanner Unit := do
  let _ ← field 2 0 23
  char ':'
  let _ ← field 2 0 59
  char ':'
  let _ ← field 2 0 60
  let _ ← optional (do char '.'; let _ ← many1 digit)

/-- A distance from universal time. -/
def offset : Scanner Unit :=
  (do let _ ← satisfy fun c => c == 'Z' || c == 'z') <|> do
    let _ ← satisfy fun c => c == '+' || c == '-'
    let _ ← field 2 0 23
    char ':'
    let _ ← field 2 0 59

/-- A date, a time, or both. -/
def dateTime : Scanner Unit :=
  (do
    date
    let _ ← optional (do
      let _ ← satisfy fun c => c == 'T' || c == 't' || c == ' '
      time
      let _ ← optional offset)) <|> time

end ObjectGraph.Toml
