/-
  Primer/Text/Blank.lean
  ======================
  **Blank lines.**

  A line is blank when it holds white space only, where white space is the Unicode
  property `White_Space`.
-/
import Primer.Text.Ranges

namespace Primer

/-- The code points of the property `White_Space`. -/
def whiteSpaceRanges : List (Nat × Nat) :=
  [(0x9, 0xd), (0x20, 0x20), (0x85, 0x85), (0xa0, 0xa0), (0x1680, 0x1680), (0x2000, 0x200a),
    (0x2028, 0x2029), (0x202f, 0x202f), (0x205f, 0x205f), (0x3000, 0x3000)]

def isWhiteSpace (c : Char) : Bool := inRanges c.toNat whiteSpaceRanges

/-- Does the text hold white space only? -/
def isBlankText (s : String) : Bool := s.toList.all isWhiteSpace

end Primer
