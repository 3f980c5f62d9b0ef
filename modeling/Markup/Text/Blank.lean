import Markup.Text.CodePoints

/-!
# Blank characters

A character is blank when it has the Unicode property `White_Space`. Blank text separates
attributes and tokens, and a text that is blank throughout carries no content. Trimming removes
blanks from both ends of a text.
-/

namespace Markup.Text

/-- The code points with the property `White_Space`. -/
def blankRanges : List (Nat × Nat) := [
    (0x9, 0xd), (0x20, 0x20), (0x85, 0x85), (0xa0, 0xa0), (0x1680, 0x1680), (0x2000, 0x200a),
    (0x2028, 0x2029), (0x202f, 0x202f), (0x205f, 0x205f), (0x3000, 0x3000)]

/-- Whether a character has the property `White_Space`. -/
def isBlank (c : Char) : Bool :=
  covers blankRanges c.toNat

/-- Whether every character of a text is blank. -/
def allBlank (text : String) : Bool :=
  text.toList.all isBlank

/-- The characters of a text without the blanks at either end. -/
def trimList (cs : List Char) : List Char :=
  ((cs.dropWhile isBlank).reverse.dropWhile isBlank).reverse

/-- A text without the blanks at either end. -/
def trim (text : String) : String :=
  String.ofList (trimList text.toList)

end Markup.Text
