import GraphSchema.Text.Blank

/-!
# Margins

Takes the margin that all lines of a text have in common off the text. Here lines are cut at line
feeds, and a margin is made of spaces and tabs.

## Main definitions

* `Text.dedent`: without margin, and without blanks at the start.
-/

namespace GraphSchema.Text

/-- A space or a tab. -/
def isMarginal (c : CodePoint) : Bool := c = ' ' || c = '\t'

/-- The spaces and tabs in front of a line that holds anything else. -/
def margin? (line : Text) : Option Text :=
  if line.all isMarginal then none else some (line.takeWhile isMarginal)

/-- The longest common beginning of two texts. -/
def commonStart : Text → Text → Text
  | c :: s, d :: t => if c = d then c :: commonStart s t else []
  | _, _ => []

/-- What the margins of the lines have in common. -/
def commonMargin (lines : List Text) : Text :=
  match lines.filterMap margin? with
  | [] => []
  | first :: rest => rest.foldl commonStart first

/-- Empties lines of spaces and tabs, takes the common margin off the others, and drops the blanks
at the start of the text. -/
def dedent (t : Text) : Text :=
  let lines := (splitOn '\n' t).map fun line => if line.all isMarginal then [] else line
  let margin := commonMargin lines
  trimStart (intercalate "\n" (lines.map fun line => (after? margin line).getD line))

end GraphSchema.Text
