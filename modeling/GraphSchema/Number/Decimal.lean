import GraphSchema.Number.Binary64
import GraphSchema.Number.Integer

/-!
# Reading decimals

A decimal has blanks at both ends, a sign, digits with at most one point among them, and an
exponent. Underscores may stand between two digits. Infinity and "not a number" have names.

## Main definitions

* `Numeral.readDecimal?`: the double precision number nearest to what a text writes.
-/

namespace GraphSchema.Numeral

/-- Deletes the underscores of a text, each of which has an ASCII digit on both sides; `closed` says
that there is a digit in front. -/
def dropUnderscores? (closed : Bool) : Text → Option Text
  | [] => some []
  | c :: rest =>
    if c = '_' then
      if closed && rest.head?.any CodePoint.isAsciiDigit then dropUnderscores? false rest else none
    else (dropUnderscores? c.isAsciiDigit rest).map (c :: ·)

/-- The number that ASCII digits write. -/
def digitsValue (digits : Text) : Nat := digits.foldl (fun n c => n * 10 + (c.val - 48)) 0

/-- The digits at the start, and the rest. -/
def spanDigits (t : Text) : Text × Text :=
  (t.takeWhile CodePoint.isAsciiDigit, t.dropWhile CodePoint.isAsciiDigit)

/-- The digits after a point, if there is one, and the rest. -/
def spanFraction (t : Text) : Text × Text :=
  match t with
  | c :: rest => if c = '.' then spanDigits rest else ([], t)
  | [] => ([], [])

/-- The exponent that makes up the end of a decimal; zero if nothing is left. -/
def readExponent? (t : Text) : Option Int :=
  match t with
  | [] => some 0
  | c :: rest =>
    if c = 'e' ∨ c = 'E' then
      let (negative, digits) := sign rest
      if digits ≠ [] ∧ digits.all CodePoint.isAsciiDigit then
        some (signed negative (digitsValue digits))
      else none
    else none

/-- A decimal without sign and name. -/
def readUnsigned? (negative : Bool) (t : Text) : Option Binary64 := do
  let (whole, rest) := spanDigits t
  let (fraction, rest) := spanFraction rest
  if whole = [] ∧ fraction = [] then none
  else
    let e ← readExponent? rest
    return .ofDecimal negative (digitsValue (whole ++ fraction)) (e - fraction.length)

/-- The number nearest to what a text writes. -/
def readDecimal? (t : Text) : Option Binary64 := do
  let (negative, body) := sign (← dropUnderscores? false (plain t))
  let name := body.lower
  if name = "inf" ∨ name = "infinity" then return .infinity negative
  else if name = "nan" then return .nan
  else readUnsigned? negative body

end GraphSchema.Numeral
