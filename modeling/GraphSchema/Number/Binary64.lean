/-!
# Double precision numbers

The values of the IEEE 754 format with 64 bits, as exact integers: a finite value is a significand
times a power of two. Rounding is done on quotients of natural numbers.

## Main definitions

* `Binary64`: a value of the format.
* `Binary64.ofRatio`: the value nearest to a quotient, a tie going to the even significand.
* `Binary64.ofDecimal`: the value nearest to a decimal.
* `Binary64.toBits`: the encoding.
-/

namespace GraphSchema

/-- A value of the format: `finite negative m q` is `± m * 2 ^ q`. -/
inductive Binary64 where
  | nan
  | infinity (negative : Bool)
  | finite (negative : Bool) (significand : Nat) (exponent : Int)
deriving DecidableEq

namespace Binary64

/-- The quotient rounded to the nearest integer, a tie going to the even one. -/
def roundHalfEven (num den : Nat) : Nat :=
  let q := num / den
  let r := num % den
  if 2 * r < den then q else if den < 2 * r then q + 1 else q + q % 2

/-- The exponent of the finest values of the format. -/
def minExponent : Int := -1074

/-- The exponent of the coarsest finite values of the format. -/
def maxExponent : Int := 971

/-- Zero with a sign. -/
def zero (negative : Bool) : Binary64 := .finite negative 0 minExponent

/-- The quotient `num / den` divided by `2 ^ q`, as numerator and denominator. -/
def descale (num den : Nat) (q : Int) : Nat × Nat :=
  if 0 ≤ q then (num, den * Nat.pow 2 q.toNat) else (num * Nat.pow 2 (-q).toNat, den)

/-- The exponent of the greatest power of two that is at most `num / den`. -/
def floorLog (num den : Nat) : Int :=
  let k : Int := (num.log2 : Int) - den.log2
  let (n, d) := descale num den k
  if d ≤ n then k else k - 1

/-- The value nearest to `num / den` with a sign; what is too large becomes infinite. -/
def ofRatio (negative : Bool) (num den : Nat) : Binary64 :=
  if num = 0 then zero negative
  else
    let q := max minExponent (floorLog num den - 52)
    let (n, d) := descale num den q
    let m := roundHalfEven n d
    let (m, q) := if m = Nat.pow 2 53 then (Nat.pow 2 52, q + 1) else (m, q)
    if maxExponent < q then .infinity negative else .finite negative m q

/-- The value nearest to an integer. -/
def ofInt (n : Int) : Binary64 := ofRatio (n < 0) n.natAbs 1

/-- The value nearest to `n * 10 ^ e` with a sign. Exponents far outside the range of the format are
settled without computing the power. -/
def ofDecimal (negative : Bool) (n : Nat) (e : Int) : Binary64 :=
  if n = 0 then zero negative
  else if 400 < e then .infinity negative
  else if e + (Nat.toDigits 10 n).length < -400 then zero negative
  else if 0 ≤ e then ofRatio negative (n * Nat.pow 10 e.toNat) 1
  else ofRatio negative n (Nat.pow 10 (-e).toNat)

/-- The 64 bits of a value as a number. -/
def toBits : Binary64 → Nat
  | nan => 0x7FF8000000000000
  | infinity negative => (if negative then Nat.pow 2 63 else 0) + 0x7FF0000000000000
  | finite negative m q =>
    (if negative then Nat.pow 2 63 else 0) +
      if m < Nat.pow 2 52 then m
      else (q + 1075).toNat * Nat.pow 2 52 + (m - Nat.pow 2 52)

/-- The integer part of a finite value. -/
def truncate? : Binary64 → Option Int
  | finite negative m q =>
    let n := if 0 ≤ q then m * Nat.pow 2 q.toNat else m / Nat.pow 2 (-q).toNat
    some (if negative then -(n : Int) else n)
  | _ => none

/-- A finite value without a fractional part. -/
def isWhole : Binary64 → Bool
  | finite _ m q => 0 ≤ q || m % Nat.pow 2 (-q).toNat = 0
  | _ => false

/-- Neither kind of zero. -/
def isNonzero : Binary64 → Bool
  | finite _ m _ => m ≠ 0
  | _ => true

end Binary64

end GraphSchema
