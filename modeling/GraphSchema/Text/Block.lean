import GraphSchema.Text.Blank

/-!
# Block strings

The value of a block string is its raw text without the common indentation of its lines and
without blank lines at both ends.

## Main definitions

* `Text.blockValue`: the value of a raw block string.
-/

namespace GraphSchema.Text

/-- How far a line is indented; a blank line has no indentation. -/
def indent? (line : Text) : Option Nat :=
  let inner := trimStart line
  if inner = [] then none else some (line.length - inner.length)

/-- The smallest indentation among lines that are not blank. -/
def commonIndent? (lines : List Text) : Option Nat := (lines.filterMap indent?).min?

/-- Takes the common indentation off the start of every line. -/
def unindent (lines : List Text) : List Text :=
  match commonIndent? lines with
  | none => lines
  | some n => lines.map (List.drop n)

/-- Without the blank lines at both ends. -/
def dropBlankEnds (lines : List Text) : List Text :=
  ((lines.dropWhile isBlank).reverse.dropWhile isBlank).reverse

/-- The value of a raw block string: the first line keeps its indentation, the others lose what
they have in common, and blank lines at both ends go. -/
def blockValue (raw : Text) : Text :=
  match brokenLines raw with
  | [] => []
  | first :: rest => intercalate "\n" (dropBlankEnds (first :: unindent rest))

end GraphSchema.Text
