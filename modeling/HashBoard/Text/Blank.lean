/-!
# White space

The characters with the white space property, and trimming by it. The set is the standard's, not
the ASCII one: no-break spaces and the ideographic space are blanks, the zero-width space is not.
-/

namespace HashBoard.Text

/-- The ranges of characters with the white space property, ends included. -/
def blankRanges : List (Nat × Nat) :=
  [(0x9, 0xd), (0x20, 0x20), (0x85, 0x85), (0xa0, 0xa0), (0x1680, 0x1680), (0x2000, 0x200a),
    (0x2028, 0x2029), (0x202f, 0x202f), (0x205f, 0x205f), (0x3000, 0x3000)]

/-- Whether a code point lies in one of the ranges. -/
def inRanges (ranges : List (Nat × Nat)) (n : Nat) : Bool :=
  ranges.any fun r ↦ r.1 ≤ n && n ≤ r.2

/-- Whether a character has the white space property. -/
def isBlank (c : Char) : Bool := inRanges blankRanges c.toNat

/-- The characters without blanks in front. -/
def trimFront (cs : List Char) : List Char := cs.dropWhile isBlank

/-- The characters without blanks at either end. -/
def trim (cs : List Char) : List Char := (trimFront (trimFront cs).reverse).reverse

end HashBoard.Text
