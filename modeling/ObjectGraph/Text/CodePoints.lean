/-!
# Sets of code points

A set of code points is given as a list of ranges. Two properties are short enough to stand here:
which characters are left out of sight, and which are blank.
-/

namespace ObjectGraph.Unicode

/-- Whether a code point lies in one of the ranges, both ends of which are included. -/
def inRanges (ranges : List (Nat × Nat)) (n : Nat) : Bool :=
  ranges.any fun range => range.1 ≤ n && n ≤ range.2

/-! ## Characters that are left out of sight -/

/-- The Unicode 17 code points with the property `Default_Ignorable_Code_Point`, as ascending ranges
with both ends included: fillers, joiners, variation selectors and the like. A display that does not
support one shows nothing for it. -/
def ignorableRanges : List (Nat × Nat) :=
  [(0xAD, 0xAD), (0x34F, 0x34F), (0x61C, 0x61C), (0x115F, 0x1160), (0x17B4, 0x17B5),
  (0x180B, 0x180F), (0x200B, 0x200F), (0x202A, 0x202E), (0x2060, 0x206F), (0x3164, 0x3164),
  (0xFE00, 0xFE0F), (0xFEFF, 0xFEFF), (0xFFA0, 0xFFA0), (0xFFF0, 0xFFF8), (0x1BCA0, 0x1BCA3),
  (0x1D173, 0x1D17A), (0xE0000, 0xE0FFF)]

/-! ## Blank characters -/

/-- The code points with the property `White_Space`, as ascending ranges with both ends included:
spaces, tabs and the separators of lines and paragraphs. The set has been the same since Unicode
6.3. -/
def blankRanges : List (Nat × Nat) :=
  [(0x9, 0xD), (0x20, 0x20), (0x85, 0x85), (0xA0, 0xA0), (0x1680, 0x1680), (0x2000, 0x200A),
  (0x2028, 0x2029), (0x202F, 0x202F), (0x205F, 0x205F), (0x3000, 0x3000)]

/-- Whether a character is blank. -/
def isBlank (c : Char) : Bool := inRanges blankRanges c.toNat

/-- A text without the blanks at its end. -/
def trimEnd (text : List Char) : List Char := (text.reverse.dropWhile isBlank).reverse

end ObjectGraph.Unicode
