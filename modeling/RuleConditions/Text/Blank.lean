import RuleConditions.Text.Ranges

/-!
# Blanks

The twenty-five characters that separate without showing: the space and its wider and narrower
kin, the tab, and the ends of lines, columns and pages.
-/

namespace RuleConditions.Text

/-- The code points of the blanks. -/
def blankRanges : Ranges := [
    (0x9, 0xd), (0x20, 0x20), (0x85, 0x85), (0xa0, 0xa0), (0x1680, 0x1680), (0x2000, 0x200a),
    (0x2028, 0x2029), (0x202f, 0x202f), (0x205f, 0x205f), (0x3000, 0x3000)]

/-- Whether a character is a blank. -/
def isBlank (c : Char) : Bool := blankRanges.contains c

/-- A text without the blanks at its two ends. -/
def trim (cs : List Char) : List Char :=
  ((cs.dropWhile isBlank).reverse.dropWhile isBlank).reverse

end RuleConditions.Text
