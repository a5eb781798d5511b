import CountedCells.Text.Ranges

/-!
# Blank: white space and trimming

White space is the Unicode property `White_Space`: 25 characters, six of them ASCII. Trimming
takes all of it off both ends of a text and leaves white space between other characters alone.
-/

namespace CountedCells.Text

/-- The characters with the property `White_Space`. -/
def blanks : Ranges :=
  [(0x09, 0x0d), (0x20, 0x20), (0x85, 0x85), (0xa0, 0xa0), (0x1680, 0x1680), (0x2000, 0x200a),
   (0x2028, 0x2029), (0x202f, 0x202f), (0x205f, 0x205f), (0x3000, 0x3000)]

/-- Whether a character is white space. -/
def isBlank (c : Char) : Bool := blanks.has c

/-- A text without the white space at its two ends. -/
def trim (cs : List Char) : List Char :=
  ((cs.dropWhile isBlank).reverse.dropWhile isBlank).reverse

end CountedCells.Text
