import ObjectGraph.Check.Drawing
import ObjectGraph.Check.TypeError

/-!
# Reports of type errors

A type error is reported as one line of JSON for tools, or as a drawing of the source line with
the place underlined. A report has a headline, one label at the place, and a suggestion where the
error has a likely cause.
-/

namespace ObjectGraph

namespace TypeError

/-- What is said at the underlined place. -/
def label : TypeError → String
  | mismatch expected found (.argument _ index) =>
    s!"argument {index + 1} expected {expected}, found {found}"
  | mismatch expected found (.initializer property _) =>
    s!"`{property}` is declared as {expected}, found {found}"
  | mismatch expected found (.result _) => s!"returns {found}, method declares {expected}"
  | mismatch expected found (.assignment _) => s!"expected {expected}, found {found}"
  | unknownType _ _ => "not found in this scope"
  | arity _ found _ => s!"called with {found} argument(s)"
  | noSuchMember ty _ _ => s!"on a value of type {ty}"
  | invalidOperator _ lhs (some rhs) _ => s!"{lhs} and {rhs}"
  | invalidOperator _ lhs none _ => lhs
  | duplicateType _ _ => "declared again here"

/-- What to try, where the error has a likely cause. -/
def suggestion : TypeError → Option String
  | mismatch expected found _ =>
    if expected = "string" ∧ (found = "int" ∨ found = "float" ∨ found = "bool") then
      some "call `toString()` on the value"
    else if expected = "float" ∧ found = "int" then some "write the literal with a decimal point"
    else none
  | unknownType name _ => some s!"declare `class {(splitBrackets name).1}` or check the spelling"
  | invalidOperator _ lhs (some rhs) _ =>
    if lhs ≠ rhs then some "operands must have the same type" else none
  | duplicateType _ _ => some "rename one of the declarations"
  | _ => none

/-- The report as one line of JSON. Spans are byte offsets, clamped to the source. -/
def toJson (error : TypeError) (source filename : String) : Json :=
  let span := error.location.span.clamp source.utf8ByteSize
  .object
    [ ("code", .string error.code),
      ("severity", .string "error"),
      ("message", .string error.message),
      ("file", .string (error.location.file.getD filename)),
      ("spans", .array
        [.object [("start", .int span.start), ("end", .int span.stop),
          ("label", .string error.label)]]),
      ("fix", error.suggestion.elim .null .string) ]

end TypeError

/-- The report as a drawing. The clamped span is read as a range of characters of the source; where
the source has too few characters for it, the headline stands alone. -/
def TypeError.toText (error : TypeError) (source : String) : String :=
  let span := error.location.span.clamp source.utf8ByteSize
  let place := Excerpt.ofRange? source.toList span.start span.stop
  let lines := s!"[{error.code}] Error: {error.message}" ::
    place.elim [] (Drawing.lines error.label error.suggestion)
  String.join (lines.map (· ++ "\n"))

end ObjectGraph
