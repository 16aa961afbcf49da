import ObjectGraph.Text.GraphemeExtend
import ObjectGraph.Text.Unprintable

/-!
# Quoted text

A text between double quotes in which every character can be seen. The quote, the backslash and
four control characters are escaped by a letter. Characters that would not show, or would attach
to their neighbour, are written by code point.
-/

namespace ObjectGraph

namespace Unicode

/-- Whether a character shows, and shows on its own. -/
def isVisible (c : Char) : Bool :=
  if c.toNat < 0x7f then 0x20 ≤ c.toNat
  else
    !isAttached c.toNat && !inRanges ignorableRanges c.toNat && !inRanges unprintableRanges c.toNat

end Unicode

namespace Quoted

/-- The characters that stand for `c` between quotes. -/
def escape (c : Char) : List Char :=
  match c with
  | '\x00' => ['\\', '0']
  | '\t' => ['\\', 't']
  | '\n' => ['\\', 'n']
  | '\r' => ['\\', 'r']
  | '"' => ['\\', '"']
  | '\\' => ['\\', '\\']
  | c =>
    if Unicode.isVisible c then [c]
    else '\\' :: 'u' :: '\x7b' :: (Nat.toDigits 16 c.toNat ++ ['\x7d'])

/-- The text with its quotes. -/
def text (s : String) : String := "\"" ++ String.ofList (s.toList.flatMap escape) ++ "\""

end Quoted

end ObjectGraph
