import GraphSchema.Source.Line

/-!
# Excerpts

A view of the lines around an offset of a source document, with a caret under the offset.

## Main definitions

* `Source.excerpt?`: the view, if the offset lies within the text.
-/

namespace GraphSchema.Source

/-- The integers from `lo` up to and without `hi`. -/
def between (lo hi : Int) : List Int :=
  (List.range (hi - lo).toNat).map fun i : Nat => lo + (i : Int)

/-- A line number set flush right in `width` columns. -/
def lineNumber (width : Nat) (n : Int) : Text :=
  let digits := Text.ofInt n
  Text.spaces (width - digits.length) ++ digits

/-- One displayed line: two spaces, the number counted from one, a colon, and the line. -/
def numbered (body : List Text) (width : Nat) (i : Int) : Text :=
  Text.spaces 2 ++ lineNumber width (i + 1) ++ ":" ++ body.getD i.toNat []

/-- A heading with the address of an offset, then the lines up to `delta` before and after its own
line, each with its number, and a line with a caret below its own line. -/
def excerpt? (body : Text) (p delta : Int) : Option Text :=
  (locate? body p).map fun (line, column) =>
    let all := lines body
    let here := line - 1
    let first := max 0 (here - delta)
    let last := min (here + delta) (all.length - 1)
    let width := (Text.ofInt (last + 1)).length
    let heading := "(" ++ Text.ofInt line ++ ":" ++ Text.ofInt column ++ "):"
    let caret := Text.spaces 2 ++ Text.spaces (width + column.toNat) ++ "^"
    let shown := heading :: ((between first here).map (numbered all width)
      ++ [numbered all width here, caret]
      ++ (between (here + 1) (last + 1)).map (numbered all width))
    Text.intercalate "\n" shown ++ "\n"

end GraphSchema.Source
