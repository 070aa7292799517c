import GraphSchema.Text.Basic

/-!
# Blanks and line breaks

Three sets of code points that separate: blanks, which are stripped from the ends of texts; the
smaller set that may stand around a numeral; and line breaks, at which block strings are cut.

## Main definitions

* `CodePoint.isBlank`, `CodePoint.isNumeralBlank`, `CodePoint.isLineBreak`.
* `Text.trimStart`, `Text.trimNumeral`, `Text.brokenLines`.
-/

namespace GraphSchema

namespace CodePoint

/-- Blanks, as ranges in ascending order. -/
def blanks : List (Nat × Nat) :=
  [(0x9, 0xD), (0x1C, 0x20), (0x85, 0x85), (0xA0, 0xA0), (0x1680, 0x1680), (0x2000, 0x200A),
   (0x2028, 0x2029), (0x202F, 0x202F), (0x205F, 0x205F), (0x3000, 0x3000)]

/-- White space in the sense of Unicode, and the four information separators. -/
def isBlank (c : CodePoint) : Bool := inRanges c.val blanks

/-- A blank that may stand around a numeral: the information separators may not. -/
def isNumeralBlank (c : CodePoint) : Bool := c.isBlank && !(0x1C ≤ c.val && c.val ≤ 0x1F)

/-- Line breaks, as ranges in ascending order. -/
def lineBreaks : List (Nat × Nat) :=
  [(0xA, 0xD), (0x1C, 0x1E), (0x85, 0x85), (0x2028, 0x2029)]

/-- A code point that ends a line of a block string. -/
def isLineBreak (c : CodePoint) : Bool := inRanges c.val lineBreaks

end CodePoint

namespace Text

/-- Without the blanks at the start. -/
def trimStart (t : Text) : Text := t.dropWhile CodePoint.isBlank

/-- Without the blanks around a numeral. -/
def trimNumeral (t : Text) : Text :=
  dropWhileEnd CodePoint.isNumeralBlank (t.dropWhile CodePoint.isNumeralBlank)

/-- A text of blanks only. -/
def isBlank (t : Text) : Bool := t.all CodePoint.isBlank

/-- Adds a code point in front of the first line. -/
def consLine (c : CodePoint) : List Text → List Text
  | [] => [[c]]
  | line :: lines => (c :: line) :: lines

/-- The lines of a text, cut at every line break; a carriage return with a line feed after it is one
break, and a break at the end opens no further line. -/
def brokenLines : Text → List Text
  | [] => []
  | [c] => if c.isLineBreak then [[]] else [[c]]
  | c :: d :: rest =>
    if c = '\r' ∧ d = '\n' then [] :: brokenLines rest
    else if c.isLineBreak then [] :: brokenLines (d :: rest)
    else consLine c (brokenLines (d :: rest))

end Text

end GraphSchema
