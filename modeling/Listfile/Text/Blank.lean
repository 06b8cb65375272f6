import Listfile.Text.CodeSet

/-!
# Blank characters

The characters of the Unicode property `White_Space`. The scanner skips them
between tokens and the integer reader trims them from both ends of a text, so
there is one definition for both.
-/

namespace Listfile.Text

/-- The 25 code points of the Unicode property `White_Space`. -/
def blankCodes : CodeSet := .mk
  [0x9, 0xE, 0x20, 0x21, 0x85, 0x86, 0xA0, 0xA1, 0x1680, 0x1681, 0x2000, 0x200B, 0x2028, 0x202A,
   0x202F, 0x2030, 0x205F, 0x2060, 0x3000, 0x3001]

/-- Whether a character is blank. -/
def isBlank (c : Char) : Bool :=
  blankCodes.contains c

/-- A text without the blanks at its two ends. -/
def trim (cs : List Char) : List Char :=
  ((cs.dropWhile isBlank).reverse.dropWhile isBlank).reverse

end Listfile.Text
