import GraphSchema.Number.Binary64
import GraphSchema.Text.Basic

/-!
# Shortest decimals

A double precision number is shown by the fewest digits that read back as the same number; of those
the nearest, and of two equally near the even one.

## Main definitions

* `Binary64.shortest`: those digits with the exponent of the last one.
* `Binary64.display`: the number in positional notation, or with an exponent if it is large or
  small.
-/

namespace GraphSchema.Binary64

/-- The exponent of the first digit of `num / den`, a quotient above `10 ^ -400`. -/
def leadingExponent (num den : Nat) : Int :=
  ((Nat.toDigits 10 (num * Nat.pow 10 400 / den)).length : Int) - 401

/-- Whether `c` times the unit lies between the two bounds; all are given as multiples of the same
quotient `1 / den`. -/
def within (closed : Bool) (lo hi c : Nat) : Bool :=
  if closed then lo ≤ c && c ≤ hi else lo < c && c < hi

/-- Of the two neighbours of `value / den` on the integers, the one between the bounds; of two the
nearer, and of two equally near the even one. -/
def neighbour? (closed : Bool) (lo value hi den : Nat) : Option Nat :=
  let low := value / den
  let isLow := within closed lo hi (low * den)
  let isHigh := within closed lo hi ((low + 1) * den)
  if isLow && isHigh then some (roundHalfEven value den)
  else if isLow then some low
  else if isHigh then some (low + 1)
  else none

/-- Tries grids of digits, `count` of them in turn, from the coarsest. The bounds and the value are
multiples of `1 / den`, and `p` is the exponent of the last digit of the first grid. -/
def search (closed : Bool) (lo value hi den : Nat) : Nat → Int → Nat × Int
  | 0, p => (value / den, p)
  | count + 1, p =>
    let scale := if 0 ≤ p then Nat.pow 10 p.toNat else 1
    let factor := if 0 ≤ p then 1 else Nat.pow 10 (-p).toNat
    match neighbour? closed (lo * factor) (value * factor) (hi * factor) (den * scale) with
    | some digits => (digits, p)
    | none => search closed lo value hi den count (p - 1)

/-- The fewest digits that read back as `m * 2 ^ q`, as an integer and the exponent of its last
digit. The numbers that read back lie up to half way to the neighbours of the value, ends included
if the significand is even; the neighbour below a power of two is nearer. -/
def shortest (m : Nat) (q : Int) : Nat × Int :=
  let below := if m = Nat.pow 2 52 ∧ minExponent < q then 1 else 2
  let scale := if 2 ≤ q then Nat.pow 2 (q - 2).toNat else 1
  let den := if 2 ≤ q then 1 else Nat.pow 2 (2 - q).toNat
  let value := 4 * m * scale
  search (m % 2 = 0) ((4 * m - below) * scale) value ((4 * m + 2) * scale) den 17
    (leadingExponent value den)

/-- Digits with the point after the first `point` of them, in positional notation. -/
def positional (digits : Text) (point : Int) : Text :=
  if point ≤ 0 then "0." ++ List.replicate (-point).toNat (CodePoint.ofChar '0') ++ digits
  else if (digits.length : Int) ≤ point then
    digits ++ List.replicate (point - digits.length).toNat (CodePoint.ofChar '0') ++ ".0"
  else digits.take point.toNat ++ "." ++ digits.drop point.toNat

/-- Digits with the point after the first, and an exponent of at least two digits. -/
def scientific (digits : Text) (e : Int) : Text :=
  let mantissa := match digits with
    | [] => []
    | [d] => [d]
    | d :: rest => d :: "." ++ rest
  let power := Text.ofNat e.natAbs
  let mark : Text := if e < 0 then "e-" else "e+"
  mantissa ++ mark ++ (if power.length < 2 then CodePoint.ofChar '0' :: power else power)

/-- Numbers from `10 ^ -4` up to below `10 ^ 16` are shown in positional notation with at least one
digit after the point, all others with an exponent. -/
def display : Binary64 → Text
  | nan => "nan"
  | infinity negative => if negative then "-inf" else "inf"
  | finite negative m q =>
    let minus : Text := if negative then "-" else ""
    if m = 0 then minus ++ "0.0"
    else
      let (n, p) := shortest m q
      let numeral := Text.ofNat n
      let point := p + numeral.length
      let digits := Text.dropWhileEnd (· = '0') numeral
      minus ++ if -4 < point ∧ point ≤ 16 then positional digits point
        else scientific digits (point - 1)

end GraphSchema.Binary64
