import GraphSchema.Text.Basic

/-!
# Lines of a source document

A source document is cut into lines at line feeds, carriage returns, and carriage returns followed
by a line feed. Lines and columns are counted from one.

## Main definitions

* `Source.lineStarts`: the offsets at which lines start.
* `Source.lines`: the lines without their separators.
* `Source.address?`: line and column of an offset, found among line starts by bisection.
* `Source.locate?`: line and column of an offset of a text, if it lies within the text.
-/

namespace GraphSchema.Source

/-- The offsets just after the line separators of a text that starts at offset `at`. -/
def separatorEnds (start : Nat) : Text → List Nat
  | [] => []
  | [c] => if c = '\n' ∨ c = '\r' then [start + 1] else []
  | c :: d :: rest =>
    if c = '\r' ∧ d = '\n' then (start + 2) :: separatorEnds (start + 2) rest
    else if c = '\n' ∨ c = '\r' then (start + 1) :: separatorEnds (start + 1) (d :: rest)
    else separatorEnds (start + 1) (d :: rest)

/-- The offsets at which the lines of a text start; the first is zero. -/
def lineStarts (body : Text) : List Nat := 0 :: separatorEnds 0 body

/-- Adds a code point in front of the first line. -/
def consLine (c : CodePoint) : List Text → List Text
  | [] => [[c]]
  | line :: lines => (c :: line) :: lines

/-- The lines of a text; always at least one. -/
def lines : Text → List Text
  | [] => [[]]
  | [c] => if c = '\n' ∨ c = '\r' then [[], []] else [[c]]
  | c :: d :: rest =>
    if c = '\r' ∧ d = '\n' then [] :: lines rest
    else if c = '\n' ∨ c = '\r' then [] :: lines (d :: rest)
    else consLine c (lines (d :: rest))

/-- Bisection between `lo` and `hi`: on an ascending array, how many entries are at most `p`. -/
def bisect (starts : Array Int) (p : Int) (lo hi : Nat) : Nat :=
  if lo < hi then
    let mid := (lo + hi) / 2
    if p < starts.getD mid 0 then bisect starts p lo mid else bisect starts p (mid + 1) hi
  else lo
termination_by hi - lo

/-- Line and column of an offset among given line starts. An offset before all of them is counted
from the last one, on line zero; without line starts there is no answer. -/
def address? (starts : Array Int) (p : Int) : Option (Int × Int) :=
  if starts.isEmpty then none
  else
    let line := bisect starts p 0 starts.size
    let start := starts.getD (if line = 0 then starts.size - 1 else line - 1) 0
    some (line, p - start + 1)

/-- The line starts of a text as integers in an array, ready for bisection. -/
def index (body : Text) : Array Int := (lineStarts body).toArray.map Int.ofNat

/-- Line and column of an offset of a text; none if it lies outside. The end of the text counts as
inside. -/
def locate? (body : Text) (p : Int) : Option (Int × Int) :=
  if p < 0 ∨ (body.length : Int) < p then none else address? (index body) p

end GraphSchema.Source
