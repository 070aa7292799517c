import GraphSchema.Proofs.Number.Binary64
import GraphSchema.Proofs.Number.Integer
import GraphSchema.Proofs.Scalar.Rejection

/-!
# Coercion to 32-bit integers

Which data become a 32-bit integer, and how the coercion fails for all others. An infinity
overflows; everything else that is turned down is a bad value.

## Main definitions

* `Data.EqualsInt`: a datum other than a truth value that is an integer or writes one.
* `Data.FitsInt`: what equals an integer of 32 bits.
* `Data.IsInfinite`: an infinity.
* `ReadsInt`: a result tells apart what fits, what is infinite, and what is turned down.

## Main statements

* `Scalar.readInt_iff`: the integers of any size that are read.
* `Scalar.coerceInt_exact`: the integers of 32 bits that are returned, the data that are bad values,
  and those that overflow; so it is with the literals of the scalar.
-/

namespace GraphSchema

namespace Data

/-- The datum is an integer, a double precision number with the value of one, or a numeral that
writes one. -/
inductive EqualsInt : Data → Int → Prop
  | int (n : Int) : EqualsInt (.int n) n
  | float {x : Binary64} {n : Int} (h : x.rational? = some (n : ℚ)) : EqualsInt (.float x) n
  | text (p : Numeral.Decimal) : EqualsInt (.text p.text) p.value

/-- The datum equals an integer of 32 bits. -/
def FitsInt (d : Data) (n : Int) : Prop := d.EqualsInt n ∧ -2 ^ 31 ≤ n ∧ n ≤ 2 ^ 31 - 1

/-- The datum is an infinity. -/
def IsInfinite (d : Data) : Prop := ∃ negative, d = .float (.infinity negative)

/-- No infinity equals an integer. -/
theorem IsInfinite.not_equalsInt {d : Data} {n : Int} (h : d.IsInfinite) : ¬d.EqualsInt n := by
  obtain ⟨negative, rfl⟩ := h
  rintro ⟨⟩
  rename_i h
  cases h

end Data

/-- The result is what `make` makes of the integer that fits, if there is one. An infinity
overflows, and the rest fails with the class `refusal`. -/
structure ReadsInt {α : Type} (d : Data) (make : Int → α) (refusal : Failure.Class)
    (result : Except Failure α) : Prop where
  returns : ∀ a, result = .ok a ↔ ∃ n, make n = a ∧ d.FitsInt n
  refuses : (∃ f, result = .error f ∧ f.category = refusal) ↔
    ¬d.IsInfinite ∧ ¬∃ n, d.FitsInt n
  overflows : result = .error .outOfRange ↔ d.IsInfinite

/-- The three cases are told apart by what is returned and by the failures. -/
theorem ReadsInt.of_error {α : Type} {d : Data} {make : Int → α} {refusal : Failure.Class}
    {result : Except Failure α} (hclass : refusal ≠ .overflow)
    (hok : ∀ a, result = .ok a ↔ ∃ n, make n = a ∧ d.FitsInt n)
    (herror : ∀ f, result = .error f →
      f.category = refusal ∧ ¬d.IsInfinite ∨ f = .outOfRange ∧ d.IsInfinite) :
    ReadsInt d make refusal result where
  returns := hok
  refuses := by
    constructor
    · rintro ⟨f, hf, hcategory⟩
      refine ⟨?_, fun ⟨n, hn⟩ => ?_⟩
      · rcases herror f hf with h | ⟨rfl, -⟩
        · exact h.2
        · exact absurd hcategory.symm hclass
      · rw [(hok _).2 ⟨n, rfl, hn⟩] at hf
        cases hf
    · rintro ⟨hfinite, hnone⟩
      cases hresult : result with
      | ok a =>
        obtain ⟨n, -, hn⟩ := (hok a).1 hresult
        exact absurd ⟨n, hn⟩ hnone
      | error f =>
        rcases herror f hresult with h | h
        · exact ⟨f, rfl, h.1⟩
        · exact absurd h.2 hfinite
  overflows := by
    constructor
    · intro h
      rcases herror _ h with ⟨hcategory, -⟩ | ⟨-, hinfinite⟩
      · exact absurd hcategory.symm hclass
      · exact hinfinite
    · intro hinfinite
      cases hresult : result with
      | ok a =>
        obtain ⟨n, -, hn⟩ := (hok a).1 hresult
        exact absurd hn.1 hinfinite.not_equalsInt
      | error f =>
        rcases herror f hresult with h | ⟨rfl, -⟩
        · exact absurd hinfinite h.2
        · rfl

namespace Scalar

variable {d : Data} {n : Int} {f : Failure}

/-! ## Integers of any size -/

theorem readInt_float {x : Binary64} : readInt (.float x) = .ok n ↔ x.rational? = some (n : ℚ) := by
  rw [Binary64.rational?_eq_intCast_iff]
  cases x with
  | nan => simp [readInt, Binary64.isWhole]
  | infinity => simp [readInt, Binary64.isWhole]
  | finite negative m q =>
    simp only [readInt, Binary64.truncate?, Option.some.injEq]
    by_cases h : (Binary64.finite negative m q).isWhole
    · rw [if_pos h, and_iff_right h, Except.ok.injEq]
    · rw [if_neg h]
      simp [h]

theorem readInt_text {t : Text} :
    readInt (.text t) = .ok n ↔ ∃ p : Numeral.Decimal, p.text = t ∧ p.value = n := by
  rw [← Numeral.readInteger_iff]
  have hnil : Numeral.readInteger [] = .error .illFormed := by decide
  cases t with
  | nil => simp [readInt, hnil]
  | cons c t =>
    simp only [readInt]
    cases Numeral.readInteger (c :: t) <;> simp

/-- The integers that are read. -/
theorem readInt_iff : readInt d = .ok n ↔ d.EqualsInt n := by
  constructor
  · intro h
    match d with
    | .int m =>
      cases h
      exact .int n
    | .float x => exact .float (readInt_float.1 h)
    | .text t =>
      obtain ⟨p, rfl, rfl⟩ := readInt_text.1 h
      exact .text p
    | .null | .bool _ | .list _ | .record _ | .node _ => cases h
  · intro h
    cases h with
    | int => rfl
    | float h => exact readInt_float.2 h
    | text p => exact readInt_text.2 ⟨p, rfl, rfl⟩

/-- What is not read is a bad value, unless it is an infinity. -/
theorem readInt_error (h : readInt d = .error f) :
    f.category = .value ∧ ¬d.IsInfinite ∨ f = .outOfRange ∧ d.IsInfinite := by
  match d with
  | .float .nan =>
    cases h
    exact .inl ⟨rfl, by rintro ⟨_, ⟨⟩⟩⟩
  | .float (.infinity negative) =>
    cases h
    exact .inr ⟨rfl, negative, rfl⟩
  | .float (.finite negative m q) =>
    simp only [readInt, Binary64.truncate?] at h
    split at h
    · cases h
    · cases h
      exact .inl ⟨rfl, by rintro ⟨_, ⟨⟩⟩⟩
  | .text t =>
    have hf : f.category = .value := by
      cases t with
      | nil => cases h; rfl
      | cons c t =>
        simp only [readInt] at h
        split at h <;> cases h
        rfl
    exact .inl ⟨hf, by rintro ⟨_, ⟨⟩⟩⟩
  | .int _ => cases h
  | .null | .bool _ | .list _ | .record _ | .node _ =>
    cases h
    exact .inl ⟨rfl, by rintro ⟨_, ⟨⟩⟩⟩

/-! ## Integers of 32 bits -/

theorem coerceInt_of_readInt (h : readInt d = .ok n) :
    coerceInt d = if minInt ≤ n ∧ n ≤ maxInt then .ok n else
      .error (.badValue ("Int cannot represent non 32-bit signed integer: " ++ d.display)) := by
  rw [coerceInt, h]
  rfl

theorem coerceInt_eq_ok_iff : coerceInt d = .ok n ↔ d.FitsInt n := by
  rw [Data.FitsInt, ← readInt_iff]
  cases hn : readInt d with
  | error f =>
    have herror : coerceInt d = .error f := by rw [coerceInt, hn]; rfl
    simp [herror]
  | ok m =>
    have hrange : minInt = -2 ^ 31 ∧ maxInt = 2 ^ 31 - 1 := by decide
    rw [coerceInt_of_readInt hn, Except.ok.injEq, hrange.1, hrange.2]
    by_cases h : -2 ^ 31 ≤ m ∧ m ≤ 2 ^ 31 - 1
    · rw [if_pos h, Except.ok.injEq]
      exact ⟨fun hm => ⟨hm, hm ▸ h⟩, fun hm => hm.1⟩
    · rw [if_neg h]
      refine iff_of_false (by simp) ?_
      rintro ⟨rfl, hm⟩
      exact h hm

/-- What is not returned is a bad value, unless it is an infinity. -/
theorem coerceInt_error (h : coerceInt d = .error f) :
    f.category = .value ∧ ¬d.IsInfinite ∨ f = .outOfRange ∧ d.IsInfinite := by
  cases hn : readInt d with
  | error g =>
    rw [coerceInt, hn] at h
    cases h
    exact readInt_error hn
  | ok m =>
    rw [coerceInt_of_readInt hn] at h
    split at h
    · cases h
    · cases h
      exact .inl ⟨rfl, fun hd => hd.not_equalsInt (readInt_iff.1 hn)⟩

theorem readsInt_coerceInt (d : Data) : ReadsInt d (fun n => n) .value (coerceInt d) := by
  refine .of_error (by decide) (fun n => ?_) fun f hf => coerceInt_error hf
  rw [coerceInt_eq_ok_iff, exists_eq_left]

/-- A literal of the scalar is read as what it holds is coerced. -/
theorem readsInt_parseLiteral (d : Data) (info : Metadata) :
    ReadsInt d Data.int .scalarParsing
      (int.parseLiteral (.node (.mk .intValue info [.mk .value d]))) := by
  have hread : int.read (.node (.mk .intValue info [.mk .value d])) = (coerceInt d).map .int := rfl
  refine .of_error (by decide) (fun a => ?_) fun f hf => ?_
  · simp only [parseLiteral, hread, ← coerceInt_eq_ok_iff]
    cases coerceInt d <;> simp [Except.map, and_comm]
  · rw [parseLiteral, hread] at hf
    cases hd : coerceInt d with
    | ok n =>
      rw [hd] at hf
      cases hf
    | error g =>
      rw [hd] at hf
      cases hf
      rcases coerceInt_error hd with ⟨hg, hfinite⟩ | ⟨rfl, hinfinite⟩
      · exact .inl ⟨by simp [Failure.isRejection, hg], hfinite⟩
      · exact .inr ⟨rfl, hinfinite⟩

/-- An integer of 32 bits is returned just for what equals it. Everything else is a bad value, but
for the infinities, which overflow; so it is with the literals of the scalar. -/
theorem coerceInt_exact (d : Data) :
    ReadsInt d (fun n => n) .value (coerceInt d) ∧
      ∀ info, ReadsInt d Data.int .scalarParsing
        (int.parseLiteral (.node (.mk .intValue info [.mk .value d]))) :=
  ⟨readsInt_coerceInt d, readsInt_parseLiteral d⟩

example : coerceInt (.float (.infinity false)) = .error .outOfRange := rfl

end Scalar

end GraphSchema
