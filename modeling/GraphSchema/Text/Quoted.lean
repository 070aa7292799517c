import GraphSchema.Text.Printable

/-!
# Quoted texts

A text between quotation marks, on one line and with all its code points visible.

## Main definitions

* `Text.quoted`: the quoted form.
-/

namespace GraphSchema.Text

/-- The hexadecimal numeral of `n` with `width` small digits. -/
def hexadecimal (width n : Nat) : Text :=
  let digits := (Nat.toDigits 16 n).map CodePoint.ofChar
  List.replicate (width - digits.length) (CodePoint.ofChar '0') ++ digits

/-- The form of a code point between quotation marks `mark`. -/
def escaped (mark c : CodePoint) : Text :=
  if c = mark ∨ c = '\\' then [CodePoint.ofChar '\\', c]
  else if c = '\n' then "\\n"
  else if c = '\r' then "\\r"
  else if c = '\t' then "\\t"
  else if c.isPrintable then [c]
  else if c.val < 0x100 then "\\x" ++ hexadecimal 2 c.val
  else if c.val < 0x10000 then "\\u" ++ hexadecimal 4 c.val
  else "\\U" ++ hexadecimal 8 c.val

/-- The text between single quotation marks, or between double ones if it holds a single one and no
double one. -/
def quoted (t : Text) : Text :=
  let mark : CodePoint := if t.contains '\'' && !t.contains '"' then '"' else '\''
  mark :: t.flatMap (escaped mark) ++ [mark]

end GraphSchema.Text
