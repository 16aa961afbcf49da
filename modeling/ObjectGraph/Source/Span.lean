import ObjectGraph.Json

/-!
# Spans and locations

A span is a half-open range of byte offsets into a source text. A location is a span together
with the file it lies in, when that is known.
-/

namespace ObjectGraph

/-- A half-open range of byte offsets. Nothing forces `start ≤ stop`: a span is what its writer
said, and readers clamp it. -/
structure Span where
  /-- The first byte. -/
  start : Nat
  /-- The byte after the last. -/
  stop : Nat
deriving DecidableEq, Repr, Inhabited

namespace Span

/-- A span that covers no byte. -/
def isEmpty (span : Span) : Bool := span.start == span.stop

/-- The number of bytes from start to stop. -/
def length (span : Span) : Nat := span.stop - span.start

/-- The smallest span that covers both. -/
def cover (a b : Span) : Span := ⟨min a.start b.start, max a.stop b.stop⟩

/-- The span cut to a text of `length` bytes. An empty result is widened by one byte where the
text has one, so that there is something to underline. -/
def clamp (span : Span) (length : Nat) : Span :=
  let start := min span.start length
  let stop := max (min span.stop length) start
  if start = stop then ⟨start, min (stop + 1) length⟩ else ⟨start, stop⟩

/-- A clamped span lies inside the text. -/
theorem clamp_stop_le (span : Span) (length : Nat) : (span.clamp length).stop ≤ length := by
  unfold clamp
  dsimp only
  split <;> dsimp only <;> omega

/-- A clamped span runs forward. -/
theorem clamp_start_le_stop (span : Span) (length : Nat) :
    (span.clamp length).start ≤ (span.clamp length).stop := by
  unfold clamp
  dsimp only
  split <;> dsimp only <;> omega

/-- A span that is not empty and lies inside the text is left as it is. -/
theorem clamp_of_lt {span : Span} {length : Nat} (h : span.start < span.stop)
    (hl : span.stop ≤ length) : span.clamp length = span := by
  obtain ⟨start, stop⟩ := span
  dsimp only at h hl
  unfold clamp
  dsimp only
  rw [if_neg (by omega)]
  congr 1 <;> omega

/-- The text `start..stop`. -/
def text (span : Span) : String := Nat.repr span.start ++ ".." ++ Nat.repr span.stop

/-- A span as an object of its two ends. -/
def toJson (span : Span) : Json :=
  .object [("start", .int span.start), ("end", .int span.stop)]

end Span

/-- Where a diagnostic points. -/
structure Location where
  /-- The file, if the place lies in one. -/
  file : Option String
  /-- The range within the file's text. -/
  span : Span
deriving DecidableEq, Repr, Inhabited

namespace Location

/-- A place in no file. -/
def detached (span : Span) : Location := ⟨none, span⟩

/-- The file, a colon and the span, or the span alone. -/
def text (location : Location) : String :=
  match location.file with
  | some file => file ++ ":" ++ location.span.text
  | none => location.span.text

/-- A location as an object of its file (or null) and its span. -/
def toJson (location : Location) : Json :=
  .object [("file", location.file.elim .null .string), ("span", location.span.toJson)]

end Location

end ObjectGraph
