import GraphSchema.Text.Blank
import GraphSchema.Text.Digit
import GraphSchema.Text.Quoted

/-!
# Reading integers

A numeral has blanks at both ends, a sign, and digits between which single underscores may stand.
The decimal digits of every script are read as ASCII digits.

## Main definitions

* `Numeral.plain`: a text without outer blanks and with ASCII digits.
* `Numeral.readDigits?`: digits and underscores in a base.
* `Numeral.Fault`: why a text is no decimal numeral.
* `Numeral.readInteger`, `Numeral.readHexadecimal?`: whole numerals.
-/

namespace GraphSchema.Numeral

/-- An ASCII code point as it is, any other decimal digit as the ASCII digit of its value, and a
question mark for all else. -/
def plainDigit (c : CodePoint) : CodePoint :=
  if c.val < 127 then c
  else
    match c.decimal? with
    | some n => CodePoint.ofNat (48 + n)
    | none => '?'

/-- Strips the outer blanks and replaces digits of other scripts. -/
def plain (t : Text) : Text := t.trimNumeral.map plainDigit

/-- The value of a digit or letter in bases up to 36. -/
def digitValue? (c : CodePoint) : Option Nat :=
  if c.between '0' '9' then some (c.val - 48)
  else if c.between 'a' 'z' then some (c.val - 87)
  else if c.between 'A' 'Z' then some (c.val - 55)
  else none

/-- The number written by digits of a base, after digits that write `n`; `closed` says that the
last code point was a digit, so that an underscore or the end may follow. -/
def readDigits? (base n : Nat) (closed : Bool) : Text → Option Nat
  | [] => if closed then some n else none
  | c :: rest =>
    if c = '_' then if closed then readDigits? base n false rest else none
    else
      match digitValue? c with
      | none => none
      | some d => if d < base then readDigits? base (n * base + d) true rest else none

/-- How many decimal digits a text begins with, after `n` of them, if underscores stand between
digits only; `closed` says that the last code point was a digit. -/
def countDigits? (n : Nat) (closed : Bool) : Text → Option Nat
  | [] => if closed then some n else none
  | c :: rest =>
    if c.isAsciiDigit then countDigits? (n + 1) true rest
    else if closed then if c = '_' then countDigits? n false rest else some n
    else none

/-- A sign, if there is one, and what follows it; `true` stands for minus. -/
def sign (t : Text) : Bool × Text :=
  match t with
  | [] => (false, [])
  | c :: rest => if c = '-' then (true, rest) else if c = '+' then (false, rest) else (false, t)

/-- A number with its sign. -/
def signed (negative : Bool) (n : Nat) : Int := if negative then -(n : Int) else n

/-- How many digits a decimal numeral may have. -/
def maxDigits : Nat := 4300

/-- Why a text is no decimal numeral: it begins with too many digits, or it is badly formed. -/
inductive Fault where
  | tooLong (digits : Nat)
  | illFormed
deriving DecidableEq

/-- The integer that a decimal numeral writes. -/
def readInteger (t : Text) : Except Fault Int :=
  let (negative, digits) := sign (plain t)
  match countDigits? 0 false digits with
  | none => .error .illFormed
  | some count =>
    if maxDigits < count then .error (.tooLong count)
    else
      match readDigits? 10 0 false digits with
      | some n => .ok (signed negative n)
      | none => .error .illFormed

/-- Without a leading `0x`, and an underscore after it. -/
def dropHexMark (t : Text) : Text :=
  match t with
  | z :: x :: rest =>
    if z = '0' ∧ (x = 'x' ∨ x = 'X') then
      match rest with
      | u :: more => if u = '_' then more else rest
      | [] => rest
    else t
  | _ => t

/-- The integer that a hexadecimal numeral writes; `0x` may stand in front of the digits. -/
def readHexadecimal? (t : Text) : Option Int := do
  let (negative, digits) := sign (plain t)
  return signed negative (← readDigits? 16 0 false (dropHexMark digits))

/-- How much of what is no numeral a message shows. -/
def shownLength : Nat := 200

/-- The message on a text that is no numeral in a base. -/
def invalidMessage (base : Nat) (t : Text) : Text :=
  "invalid literal for int() with base " ++ Text.ofNat base ++ ": " ++ t.quoted.take shownLength

/-- The message on a text that is no decimal numeral. -/
def Fault.message (t : Text) : Fault → Text
  | tooLong digits =>
    "Exceeds the limit (" ++ Text.ofNat maxDigits ++ " digits) for integer string conversion: "
      ++ "value has " ++ Text.ofNat digits
      ++ " digits; use sys.set_int_max_str_digits() to increase the limit"
  | illFormed => invalidMessage 10 t

end GraphSchema.Numeral
