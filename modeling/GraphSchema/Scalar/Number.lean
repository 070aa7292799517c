import GraphSchema.Node.Printer
import GraphSchema.Number.Decimal

/-!
# Coercion of numbers

Data become 32-bit integers or floating-point numbers where they stand for one.

## Main definitions

* `Scalar.coerceInt`: 32-bit signed integers.
* `Scalar.coerceFloat`: floating-point numbers.
-/

namespace GraphSchema.Scalar

/-- The least integer that counts. -/
def minInt : Int := -2147483648

/-- The greatest integer that counts. -/
def maxInt : Int := 2147483647

/-- The word for an empty text in messages. -/
def emptyText : Text := "(empty string)"

/-- What is given is no integer. -/
def notInteger (shown : Text) : Failure :=
  .badValue ("Int cannot represent non integer value: " ++ shown)

/-- What is given is no number. -/
def notNumeric (shown : Text) : Failure :=
  .badValue ("Float cannot represent non numeric value: " ++ shown)

/-- The integer of any size that a datum stands for. -/
def readInt (d : Data) : Except Failure Int :=
  match d with
  | .int n => .ok n
  | .float .nan => .error .notANumber
  | .float (.infinity _) => .error .outOfRange
  | .float x =>
    match x.truncate? with
    | some n => if x.isWhole then .ok n else .error (notInteger x.display)
    | none => .error (notInteger x.display)
  | .text [] => .error (notInteger emptyText)
  | .text t =>
    match Numeral.readInteger t with
    | .ok n => .ok n
    | .error _ => .error (notInteger t)
  | d => .error (notInteger d.quoted)

/-- The 32-bit signed integer that a datum stands for. An integer out of range is shown in full,
however long it is; a system that limits the digits of the integers it writes, as those it reads
are limited to `Numeral.maxDigits`, gives an error of the same class with a message about that
limit. -/
def coerceInt (d : Data) : Except Failure Int := do
  let n ← readInt d
  if minInt ≤ n ∧ n ≤ maxInt then return n
  else throw (.badValue ("Int cannot represent non 32-bit signed integer: " ++ d.display))

/-- The floating-point number that a datum stands for. Integers that are too large for the format
overflow. -/
def coerceFloat (d : Data) : Except Failure Binary64 :=
  match d with
  | .float x => .ok x
  | .bool b => .ok (.ofInt (if b then 1 else 0))
  | .int n =>
    match Binary64.ofInt n with
    | .infinity _ => .error .outOfRange
    | x => .ok x
  | .text [] => .error (notNumeric emptyText)
  | .text t =>
    match Numeral.readDecimal? t with
    | some x => .ok x
    | none => .error (notNumeric t)
  | .null => .error (notNumeric d.display)
  | d => .error (.badType ("float() argument must be a string or a real number, not "
      ++ "'" ++ d.typeName ++ "'"))

end GraphSchema.Scalar
