import GraphSchema.Number.Binary64
import Mathlib.Algebra.Field.Rat
import Mathlib.Algebra.Order.Field.Power
import Mathlib.Tactic.NormNum

/-!
# Integers among double precision numbers

The rational number that a finite value is, and which values are integers.

## Main definitions

* `Binary64.magnitude`, `Binary64.rational?`: the number that is meant.

## Main statements

* `Binary64.rational?_eq_intCast_iff`: a value is an integer just if it is whole and its integer
  part is this one.
-/

namespace GraphSchema.Binary64

/-- A significand times a power of two. -/
def magnitude (m : Nat) (q : Int) : ℚ := m * 2 ^ q

/-- The number that a finite value is. -/
def rational? : Binary64 → Option ℚ
  | finite negative m q => some (if negative then -magnitude m q else magnitude m q)
  | _ => none

variable {m : Nat} {q : Int}

theorem magnitude_of_nonneg (h : 0 ≤ q) : magnitude m q = (m * Nat.pow 2 q.toNat : Nat) := by
  obtain ⟨k, rfl⟩ := Int.eq_ofNat_of_zero_le h
  simp [magnitude]

theorem magnitude_mul_of_neg (h : q < 0) : magnitude m q * (Nat.pow 2 (-q).toNat : Nat) = m := by
  obtain ⟨k, hk⟩ := Int.eq_ofNat_of_zero_le (show 0 ≤ -q by omega)
  obtain rfl : q = -k := by omega
  simp [magnitude]

/-- A quotient of natural numbers is an integer just if nothing is left. -/
theorem eq_intCast_iff_of_mul_eq {x : ℚ} {p : Nat} {n : Int} (hp : 0 < p) (hx : x * p = m) :
    x = n ↔ m % p = 0 ∧ n = (m / p : Nat) := by
  constructor
  · rintro rfl
    have hint : (p : Int) * n = m := by
      rw [mul_comm]
      exact_mod_cast hx
    obtain ⟨k, rfl⟩ := Int.natCast_dvd_natCast.1 ⟨n, hint.symm⟩
    refine ⟨Nat.mul_mod_right p k, ?_⟩
    rw [Nat.mul_div_cancel_left k hp]
    push_cast at hint
    exact mul_left_cancel₀ (by exact_mod_cast hp.ne') hint
  · rintro ⟨hmod, rfl⟩
    have hp' : (p : ℚ) ≠ 0 := by exact_mod_cast hp.ne'
    refine mul_right_cancel₀ hp' ?_
    rw [hx]
    exact_mod_cast (Nat.div_mul_cancel (Nat.dvd_of_mod_eq_zero hmod)).symm

/-- A significand times a power of two is an integer just if no bit is lost. -/
theorem magnitude_eq_intCast_iff {n : Int} :
    magnitude m q = n ↔ (0 ≤ q ∨ m % Nat.pow 2 (-q).toNat = 0) ∧
      n = ((if 0 ≤ q then m * Nat.pow 2 q.toNat else m / Nat.pow 2 (-q).toNat : Nat) : Int) := by
  by_cases h : 0 ≤ q
  · rw [magnitude_of_nonneg h, if_pos h, and_iff_right (.inl h)]
    norm_cast
    exact eq_comm
  · rw [if_neg h, or_iff_right h]
    exact eq_intCast_iff_of_mul_eq (Nat.pow_pos (by omega)) (magnitude_mul_of_neg (by omega))

/-- A value is an integer just if it is whole, and then it is its integer part. -/
theorem rational?_eq_intCast_iff {x : Binary64} {n : Int} :
    x.rational? = some (n : ℚ) ↔ x.isWhole ∧ x.truncate? = some n := by
  cases x with
  | nan => simp [rational?, isWhole]
  | infinity => simp [rational?, isWhole]
  | finite negative m q =>
    simp only [rational?, isWhole, truncate?, Option.some.injEq, Bool.or_eq_true,
      decide_eq_true_eq]
    cases negative with
    | false =>
      rw [if_neg Bool.false_ne_true, if_neg Bool.false_ne_true, magnitude_eq_intCast_iff,
        eq_comm (a := n)]
    | true =>
      rw [if_pos rfl, if_pos rfl, neg_eq_iff_eq_neg, ← Int.cast_neg, magnitude_eq_intCast_iff,
        neg_eq_iff_eq_neg, eq_comm (a := n)]

end GraphSchema.Binary64
