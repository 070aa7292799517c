import GraphSchema.Failure
import GraphSchema.Number.Integer
import GraphSchema.Text.Quoted

/-!
# Universal identifiers

Identifiers of 128 bits, written as 32 hexadecimal digits in groups.

## Main definitions

* `Scalar.Identifier.read`: the identifier that a text writes.
* `Scalar.Identifier.display`: the canonical form.
-/

namespace GraphSchema.Scalar.Identifier

/-- How many hexadecimal digits make up an identifier. -/
def length : Nat := 32

/-- The marks that may stand anywhere in an identifier. -/
def marks : List Text := ["urn:", "uuid:"]

/-- A brace of either kind. -/
def isBrace (c : CodePoint) : Bool := c = '\x7b' || c = '\x7d'

/-- Without marks, braces at the ends, and hyphens. -/
def digitsOf (t : Text) : Text :=
  let unmarked := marks.foldl (fun t mark => Text.remove mark t) t
  (Text.dropWhileEnd isBrace (unmarked.dropWhile isBrace)).filter fun c => c ≠ '-'

/-- The number of an identifier. -/
def read (t : Text) : Except Failure Nat :=
  let digits := digitsOf t
  if digits.length ≠ length then .error (.badValue "badly formed hexadecimal UUID string")
  else
    match Numeral.readHexadecimal? digits with
    | some n => .ok n.toNat
    | none => .error (.badValue (Numeral.invalidMessage 16 digits))

/-- The last `count` hexadecimal digits of a number, in small letters. -/
def hexadecimal (count n : Nat) : Text :=
  let digits := Text.ofString (String.ofList (Nat.toDigits 16 n))
  List.replicate (count - digits.length) (CodePoint.ofChar '0') ++ digits

/-- Cuts a text into groups of given lengths. -/
def grouped : List Nat → Text → List Text
  | [], _ => []
  | n :: rest, t => t.take n :: grouped rest (t.drop n)

/-- The lengths of the groups of the canonical form. -/
def groups : List Nat := [8, 4, 4, 4, 12]

/-- The canonical form: small letters, in groups with hyphens between them. -/
def display (n : Nat) : Text := Text.intercalate "-" (grouped groups (hexadecimal length n))

end GraphSchema.Scalar.Identifier
