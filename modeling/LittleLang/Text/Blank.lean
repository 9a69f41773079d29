import LittleLang.Text.Ranges

/-!
# Blanks

`isBlank` holds of the characters that separate tokens: the line breaks and tabulators of ASCII, its
four information separators, the space, and the blanks beyond ASCII. A numeral may be surrounded by
blanks too, but there the information separators do not count (`isNumeralBlank`).
-/

namespace LittleLang.Text

/-- The blanks, as ranges of code points. -/
def blankRanges : List (Nat × Nat) := [
    (0x9, 0xD), (0x1C, 0x20), (0x85, 0x85), (0xA0, 0xA0), (0x1680, 0x1680), (0x2000, 0x200A),
    (0x2028, 0x2029), (0x202F, 0x202F), (0x205F, 0x205F), (0x3000, 0x3000)]

/-- A character that only separates. -/
def isBlank (c : Char) : Bool :=
  inRanges blankRanges c.toNat

/-- A blank that may stand around a numeral. -/
def isNumeralBlank (c : Char) : Bool :=
  isBlank c && !(0x1C ≤ c.toNat && c.toNat ≤ 0x1F)

/-- A text of blanks alone, the empty text included. -/
def isBlankText (text : String) : Bool :=
  text.toList.all isBlank

end LittleLang.Text
