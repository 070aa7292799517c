import GraphSchema.Number.Integer
import GraphSchema.Text.Alphanumeric
import Mathlib.Data.List.Basic

/-!
# Hexadecimal numerals

Which texts of four code points are read as a hexadecimal numeral. Besides four ASCII digits these
are texts with digits of other scripts, with `0x` in front of the digits, and with a blank behind
them.

## Main definitions

* `CodePoint.isHexDigit`: the digits that a grammar asks for.
* `CodePoint.wideHexValue?`: the digits that are read, with their values.
* `Numeral.Denotes`: the numerals that are read.

## Main statements

* `CodePoint.digitValue?_plainDigit`: which code points are read as digits.
* `Numeral.readDigits?_map_plainDigit`: the number that digits write.
* `Numeral.readHexadecimal?_iff`: which four code points are read, and as which number.
-/

namespace GraphSchema

namespace CodePoint

/-- An ASCII digit of base 16. -/
def isHexDigit (c : CodePoint) : Bool := c.between '0' '9' || c.between 'a' 'f' || c.between 'A' 'F'

/-- The value of a digit of base 16: an ASCII one, or a decimal digit of another script. -/
def wideHexValue? (c : CodePoint) : Option Nat :=
  if c.isHexDigit then Numeral.digitValue? c else c.decimal?

/-! ## Which code points are alphanumeric -/

/-- What lies in one of several ranges lies in one of them. -/
theorem exists_of_inRanges {n : Nat} {rs : List (Nat × Nat)} (h : inRanges n rs) :
    ∃ range ∈ rs, range.1 ≤ n ∧ n ≤ range.2 := by
  induction rs with
  | nil => cases h
  | cons range rs ih =>
    obtain ⟨lo, hi⟩ := range
    unfold inRanges at h
    split at h
    · cases h
    · rcases Bool.or_eq_true_iff.1 h with h | h
      · exact ⟨(lo, hi), List.mem_cons_self, by omega, of_decide_eq_true h⟩
      · obtain ⟨range, hmem, h⟩ := ih h
        exact ⟨range, List.mem_cons_of_mem _ hmem, h⟩

/-- The first range that does not lie in front of an interval holds all of it. -/
def covers (lo hi : Nat) : List (Nat × Nat) → Bool
  | [] => false
  | (a, b) :: rest => if lo < a then false else hi ≤ b || covers lo hi rest

/-- No range up to the first one behind an interval holds any of it. -/
def avoids (lo hi : Nat) : List (Nat × Nat) → Bool
  | [] => true
  | (a, b) :: rest => hi < a || b < lo && avoids lo hi rest

variable {c : CodePoint} {n lo hi : Nat} {rs : List (Nat × Nat)}

theorem inRanges_of_covers (h : covers lo hi rs) (hlo : lo ≤ n) (hhi : n ≤ hi) :
    inRanges n rs := by
  induction rs with
  | nil => cases h
  | cons range rs ih => grind [covers, inRanges]

theorem not_inRanges_of_avoids (h : avoids lo hi rs) (hlo : lo ≤ n) (hhi : n ≤ hi) :
    ¬inRanges n rs := by
  induction rs with
  | nil => simp [inRanges]
  | cons range rs ih => grind [avoids, inRanges]

theorem exists_of_decimal? (h : c.decimal? = some n) :
    n < 10 ∧ ∃ z ∈ zeros, c.val = z + n := by
  obtain ⟨z, hz, rfl⟩ := Option.map_eq_some_iff.1 h
  have hmem := List.mem_of_find?_eq_some hz
  have hrange := List.find?_some hz
  simp only [Bool.and_eq_true, decide_eq_true_eq] at hrange
  exact ⟨by omega, z, hmem, by omega⟩

theorem isAlphanumeric_of_decimal? (h : c.decimal? = some n) : c.isAlphanumeric := by
  have hzeros : ∀ z ∈ zeros, covers z (z + 9) alphanumerics := by decide +kernel
  obtain ⟨hn, z, hz, hval⟩ := exists_of_decimal? h
  exact inRanges_of_covers (hzeros z hz) (by omega) (by omega)

/-- Blanks are not alphanumeric. -/
theorem not_isAlphanumeric_of_isNumeralBlank (h : c.isNumeralBlank) : ¬c.isAlphanumeric := by
  have hblanks : ∀ range ∈ blanks, avoids range.1 range.2 alphanumerics := by decide +kernel
  simp only [isNumeralBlank, Bool.and_eq_true] at h
  obtain ⟨range, hmem, hlo, hhi⟩ := exists_of_inRanges h.1
  exact not_inRanges_of_avoids (hblanks range hmem) hlo hhi

/-! ## Digits -/

/-- The digits with a value below sixteen. -/
theorem isHexDigit_iff : c.isHexDigit ↔ ∃ n < 16, Numeral.digitValue? c = some n := by
  simp only [isHexDigit, Numeral.digitValue?, between, Char.reduceToNat, Bool.or_eq_true,
    Bool.and_eq_true, decide_eq_true_eq]
  split
  · simp only [Option.some.injEq, exists_eq_right']
    omega
  split
  · simp only [Option.some.injEq, exists_eq_right']
    omega
  split
  · simp only [Option.some.injEq, exists_eq_right']
    omega
  · simp only [reduceCtorEq, and_false, exists_false, iff_false]
    omega

theorem val_lt_of_isHexDigit (h : c.isHexDigit) : c.val < 127 := by
  simp only [isHexDigit, between, Char.reduceToNat, Bool.or_eq_true, Bool.and_eq_true,
    decide_eq_true_eq] at h
  omega

/-- The decimal digits in ASCII. -/
theorem isHexDigit_of_decimal? (h : c.decimal? = some n) (hc : c.val < 127) :
    c.isHexDigit ∧ c.val = 0x30 + n := by
  have hzeros : ∀ z ∈ zeros, z = 0x30 ∨ 127 ≤ z := by decide
  obtain ⟨hn, z, hz, hval⟩ := exists_of_decimal? h
  rcases hzeros z hz with rfl | hz
  · refine ⟨?_, hval⟩
    simp only [isHexDigit, between, Char.reduceToNat, Bool.or_eq_true, Bool.and_eq_true,
      decide_eq_true_eq]
    omega
  · omega

/-- What a code point is read as: itself, an ASCII digit, or a question mark. -/
theorem plainDigit_cases (c : CodePoint) :
    c.val < 127 ∧ Numeral.plainDigit c = c ∨
      127 ≤ c.val ∧ (∃ n < 10, c.decimal? = some n ∧ Numeral.plainDigit c = ofNat (48 + n)) ∨
      127 ≤ c.val ∧ c.decimal? = none ∧ Numeral.plainDigit c = '?' := by
  by_cases hc : c.val < 127
  · exact .inl ⟨hc, if_pos hc⟩
  · refine .inr ?_
    rw [Numeral.plainDigit, if_neg hc]
    cases hd : c.decimal? with
    | none => exact .inr ⟨by omega, rfl, rfl⟩
    | some n => exact .inl ⟨by omega, n, (exists_of_decimal? hd).1, rfl, rfl⟩

/-- The digits that count are those that `wideHexValue?` knows. -/
theorem digitValue?_plainDigit :
    (n < 16 ∧ Numeral.digitValue? (Numeral.plainDigit c) = some n) ↔ c.wideHexValue? = some n := by
  have hascii : ∀ n < 10, Numeral.digitValue? (ofNat (48 + n)) = some n := by decide
  rcases plainDigit_cases c with ⟨hc, hplain⟩ | ⟨hc, d, hd, hdec, hplain⟩ | ⟨hc, hdec, hplain⟩
  · rw [hplain, wideHexValue?]
    split
    · rename_i hhex
      refine and_iff_right_of_imp fun h => ?_
      obtain ⟨m, hm, hvalue⟩ := isHexDigit_iff.1 hhex
      rw [hvalue] at h
      cases h
      exact hm
    · rename_i hhex
      constructor
      · exact fun h => absurd (isHexDigit_iff.2 ⟨n, h⟩) hhex
      · exact fun h => absurd (isHexDigit_of_decimal? h hc).1 hhex
  · have hhex : ¬c.isHexDigit := fun h => absurd (val_lt_of_isHexDigit h) (by omega)
    rw [hplain, hascii d hd, wideHexValue?, if_neg hhex, hdec]
    simp only [Option.some.injEq]
    omega
  · have hhex : ¬c.isHexDigit := fun h => absurd (val_lt_of_isHexDigit h) (by omega)
    have hnone : Numeral.digitValue? '?' = none := by decide
    rw [hplain, hnone, wideHexValue?, if_neg hhex, hdec]
    simp

theorem isAlphanumeric_of_isHexDigit (h : c.isHexDigit) : c.isAlphanumeric := by
  simp only [isHexDigit, between, Char.reduceToNat, Bool.or_eq_true, Bool.and_eq_true,
    decide_eq_true_eq] at h
  have hdigits : covers 48 57 alphanumerics ∧ covers 97 102 alphanumerics ∧
    covers 65 70 alphanumerics := by decide
  rcases h with (h | h) | h
  · exact inRanges_of_covers hdigits.1 h.1 h.2
  · exact inRanges_of_covers hdigits.2.1 h.1 h.2
  · exact inRanges_of_covers hdigits.2.2 h.1 h.2

theorem isAlphanumeric_of_wideHexValue? (h : c.wideHexValue? = some n) : c.isAlphanumeric := by
  unfold wideHexValue? at h
  split at h
  · exact isAlphanumeric_of_isHexDigit ‹_›
  · exact isAlphanumeric_of_decimal? h

theorem plainDigit_eq_zero_iff : Numeral.plainDigit c = '0' ↔ c.decimal? = some 0 := by
  rcases plainDigit_cases c with ⟨hc, hplain⟩ | ⟨-, d, hd, hdec, hplain⟩ | ⟨-, hdec, hplain⟩
  · rw [hplain]
    constructor
    · rintro rfl
      decide
    · intro h
      have hval := (isHexDigit_of_decimal? h hc).2
      obtain ⟨v, hv⟩ := c
      obtain rfl : v = 0x30 := hval
      rfl
  · have hzero : ∀ d < 10, (ofNat (48 + d) = '0' ↔ d = 0) := by decide
    rw [hplain, hdec, hzero d hd, Option.some.injEq]
  · rw [hplain, hdec]
    decide

/-- What is no ASCII digit stands for itself only. -/
theorem eq_of_plainDigit_eq {d : CodePoint} (hd : ¬d.isAsciiDigit ∧ d ≠ '?')
    (h : Numeral.plainDigit c = d) : c = d := by
  have hascii : ∀ n < 10, (ofNat (48 + n)).isAsciiDigit := by decide
  rcases plainDigit_cases c with ⟨-, hplain⟩ | ⟨-, n, hn, -, hplain⟩ | ⟨-, -, hplain⟩
  · exact hplain.symm.trans h
  · exact absurd (h ▸ hplain ▸ hascii n hn) hd.1
  · exact absurd (h.symm.trans hplain) hd.2

end CodePoint

namespace Numeral

open CodePoint (wideHexValue?)

variable {t cs : Text} {n m : Nat}

/-- The number that digits of base 16 write, after digits that write `n`. -/
def wideNumber (n : Nat) (cs : Text) : Nat :=
  cs.foldl (fun n c => n * 16 + (wideHexValue? c).getD 0) n

/-- Digits of base 16 are read; an underscore at the end is refused as all else is. -/
theorem readDigits?_map_plainDigit {closed : Bool} (h : ∀ c ∈ cs.dropLast, plainDigit c ≠ '_') :
    readDigits? 16 n closed (cs.map plainDigit) = some m ↔
      (closed ∨ cs ≠ []) ∧ (∀ c ∈ cs, (wideHexValue? c).isSome) ∧ m = wideNumber n cs := by
  induction cs generalizing n closed with
  | nil =>
    cases closed
    · simp [readDigits?]
    · simpa [readDigits?, wideNumber] using eq_comm
  | cons c cs ih =>
    have hrest : ∀ c ∈ cs.dropLast, plainDigit c ≠ '_' := by
      cases cs with
      | nil => simp
      | cons d cs => exact fun e he => h e (List.mem_cons_of_mem _ he)
    cases hv : wideHexValue? c with
    | some v =>
      obtain ⟨hlt, hdigit⟩ := CodePoint.digitValue?_plainDigit.2 hv
      have hmark : plainDigit c ≠ '_' := by
        intro hc
        have hnone : digitValue? '_' = none := by decide
        rw [hc, hnone] at hdigit
        cases hdigit
      rw [List.map_cons, readDigits?, if_neg hmark, hdigit]
      dsimp only
      rw [if_pos hlt, ih hrest]
      simp [wideNumber, hv]
    | none =>
      have hdigit : ∀ d, digitValue? (plainDigit c) = some d → ¬d < 16 := by
        intro d hd hlt
        rw [CodePoint.digitValue?_plainDigit.1 ⟨hlt, hd⟩] at hv
        cases hv
      have hnone : readDigits? 16 n closed ((c :: cs).map plainDigit) = none := by
        by_cases hmark : plainDigit c = '_'
        · obtain rfl : cs = [] := by
            cases cs with
            | nil => rfl
            | cons d cs => exact absurd hmark (h c List.mem_cons_self)
          simp [readDigits?, hmark]
        · rw [List.map_cons, readDigits?, if_neg hmark]
          split
          · rfl
          · rename_i d hd
            rw [if_neg (hdigit d hd)]
      rw [hnone]
      simp [hv]

/-- What may stand in front of the digits: nothing, or a zero of any script with an `x`. -/
inductive IsMark : Text → Prop
  | none : IsMark []
  | hexadecimal {z x : CodePoint} (hz : z.decimal? = some 0) (hx : x = 'x' ∨ x = 'X') :
      IsMark [z, x]

/-- A hexadecimal numeral without sign and underscores: a mark, digits and at most one blank. -/
def Denotes (t : Text) (n : Nat) : Prop :=
  ∃ (mark digits : Text) (blank : Option CodePoint), t = mark ++ digits ++ blank.toList ∧
    IsMark mark ∧ digits ≠ [] ∧ (∀ c ∈ digits, (wideHexValue? c).isSome) ∧
    n = wideNumber 0 digits ∧ ∀ b ∈ blank, b.isNumeralBlank

/-- What is read is alphanumeric, but for the last code point. -/
theorem Denotes.isAlphanumeric (h : Denotes t n) : ∀ c ∈ t.dropLast, c.isAlphanumeric := by
  obtain ⟨mark, digits, blank, rfl, hmark, -, hdigits, -, -⟩ := h
  have hall : ∀ c ∈ mark ++ digits, c.isAlphanumeric := by
    intro c hc
    rcases List.mem_append.1 hc with hc | hc
    · cases hmark with
      | none => cases hc
      | hexadecimal hz hx =>
        rcases List.mem_pair.1 hc with rfl | rfl
        · exact CodePoint.isAlphanumeric_of_decimal? hz
        · rcases hx with rfl | rfl <;> decide
    · obtain ⟨v, hv⟩ := Option.isSome_iff_exists.1 (hdigits c hc)
      exact CodePoint.isAlphanumeric_of_wideHexValue? hv
  cases blank with
  | none => exact fun c hc => hall c (by simpa using List.dropLast_subset _ hc)
  | some b => simpa using hall

variable {a b c d : CodePoint}

/-- No mark and no sign is alphanumeric. -/
theorem plainDigit_ne_of_isAlphanumeric (hc : c.isAlphanumeric) :
    plainDigit c ≠ '_' ∧ plainDigit c ≠ '-' ∧ plainDigit c ≠ '+' := by
  have hne : ∀ d : CodePoint, ¬d.isAlphanumeric → (¬d.isAsciiDigit ∧ d ≠ '?') →
      plainDigit c ≠ d :=
    fun d hd hplain h => hd (CodePoint.eq_of_plainDigit_eq hplain h ▸ hc)
  exact ⟨hne _ (by decide) (by decide), hne _ (by decide) (by decide),
    hne _ (by decide) (by decide)⟩

/-- A hexadecimal numeral without a blank: a mark and digits. -/
def Writes (t : Text) (n : Nat) : Prop :=
  ∃ mark digits, t = mark ++ digits ∧ IsMark mark ∧ digits ≠ [] ∧
    (∀ c ∈ digits, (wideHexValue? c).isSome) ∧ n = wideNumber 0 digits

/-- A blank at the end is no digit. -/
theorem denotes_concat_iff_of_blank (hd : d.isNumeralBlank) :
    Denotes (t ++ [d]) n ↔ Writes t n := by
  constructor
  · rintro ⟨mark, digits, blank, heq, hm, hne, hdigits, hn, -⟩
    cases blank with
    | none =>
      have hlast : d ∈ digits := by
        have hlast := congrArg List.getLast? heq
        rw [Option.toList_none, List.append_nil, List.getLast?_concat,
          List.getLast?_append_of_ne_nil _ hne] at hlast
        exact List.mem_of_getLast? hlast.symm
      obtain ⟨v, hv⟩ := Option.isSome_iff_exists.1 (hdigits d hlast)
      exact absurd (CodePoint.isAlphanumeric_of_wideHexValue? hv)
        (CodePoint.not_isAlphanumeric_of_isNumeralBlank hd)
    | some e =>
      obtain ⟨rfl, -⟩ := List.append_inj' heq rfl
      exact ⟨mark, digits, rfl, hm, hne, hdigits, hn⟩
  · rintro ⟨mark, digits, rfl, hm, hne, hdigits, hn⟩
    exact ⟨mark, digits, some d, rfl, hm, hne, hdigits, hn, by simpa using hd⟩

theorem denotes_concat_iff_of_not_blank (hd : ¬d.isNumeralBlank) :
    Denotes (t ++ [d]) n ↔ Writes (t ++ [d]) n := by
  constructor
  · rintro ⟨mark, digits, blank, heq, hm, hne, hdigits, hn, hblank⟩
    cases blank with
    | none => exact ⟨mark, digits, by simpa using heq, hm, hne, hdigits, hn⟩
    | some e =>
      obtain ⟨-, hlast⟩ := List.append_inj' heq rfl
      obtain rfl : d = e := by simpa using hlast
      exact absurd (hblank d rfl) hd
  · rintro ⟨mark, digits, heq, hm, hne, hdigits, hn⟩
    exact ⟨mark, digits, none, by simp [heq], hm, hne, hdigits, hn, by simp⟩

/-- With a mark in front, the digits are what follows it: an `x` is no digit. -/
theorem writes_iff_of_mark (hz : a.decimal? = some 0) (hx : b = 'x' ∨ b = 'X') (ht : t ≠ []) :
    Writes (a :: b :: t) n ↔ (∀ c ∈ t, (wideHexValue? c).isSome) ∧ n = wideNumber 0 t := by
  constructor
  · rintro ⟨mark, digits, heq, hm, -, hdigits, rfl⟩
    cases hm with
    | none =>
      obtain rfl : a :: b :: t = digits := heq
      have hnone : wideHexValue? b = none := by rcases hx with rfl | rfl <;> decide
      have hsome := hdigits b (by simp)
      rw [hnone] at hsome
      cases hsome
    | hexadecimal =>
      obtain rfl : t = digits := by simpa using (List.cons.inj (List.cons.inj heq).2).2
      exact ⟨hdigits, rfl⟩
  · rintro ⟨hdigits, rfl⟩
    exact ⟨[a, b], t, rfl, .hexadecimal hz hx, ht, hdigits, rfl⟩

/-- Without a mark in front, all code points are digits. -/
theorem writes_iff_of_not_mark (hfront : ¬(a.decimal? = some 0 ∧ (b = 'x' ∨ b = 'X'))) :
    Writes (a :: b :: t) n ↔
      (∀ c ∈ a :: b :: t, (wideHexValue? c).isSome) ∧ n = wideNumber 0 (a :: b :: t) := by
  constructor
  · rintro ⟨mark, digits, heq, hm, -, hdigits, rfl⟩
    cases hm with
    | none =>
      obtain rfl : a :: b :: t = digits := heq
      exact ⟨hdigits, rfl⟩
    | hexadecimal hz hx =>
      simp only [List.cons_append, List.nil_append, List.cons.injEq] at heq
      obtain ⟨rfl, rfl, -⟩ := heq
      exact absurd ⟨hz, hx⟩ hfront
  · rintro ⟨hdigits, rfl⟩
    exact ⟨[], _, rfl, .none, by simp, hdigits, rfl⟩

/-- What is dropped in front of a code point that is no underscore. -/
theorem dropHexMark_map_plainDigit {rest : Text} (hc : plainDigit c ≠ '_') :
    dropHexMark ((a :: b :: c :: rest).map plainDigit) =
      (if a.decimal? = some 0 ∧ (b = 'x' ∨ b = 'X') then c :: rest
        else a :: b :: c :: rest).map plainDigit := by
  have hplain : (plainDigit b = 'x' ∨ plainDigit b = 'X') ↔ b = 'x' ∨ b = 'X' := by
    constructor
    · exact Or.imp (CodePoint.eq_of_plainDigit_eq (by decide))
        (CodePoint.eq_of_plainDigit_eq (by decide))
    · rintro (rfl | rfl) <;> decide
  simp only [List.map_cons, dropHexMark, CodePoint.plainDigit_eq_zero_iff, hplain, if_neg hc]
  split <;> rfl

/-- The number that three or four code points write, the first three of them alphanumeric. -/
theorem readDigits?_dropHexMark {rest : Text} (ha : a.isAlphanumeric) (hb : b.isAlphanumeric)
    (hc : c.isAlphanumeric) (hrest : rest.length ≤ 1) :
    readDigits? 16 0 false (dropHexMark ((a :: b :: c :: rest).map plainDigit)) = some m ↔
      Writes (a :: b :: c :: rest) m := by
  have hmark {e : CodePoint} (he : e.isAlphanumeric) : plainDigit e ≠ '_' :=
    (plainDigit_ne_of_isAlphanumeric he).1
  have hlast : (c :: rest).dropLast ⊆ [c] := by
    rcases rest with _ | ⟨e, _ | ⟨f, rest⟩⟩
    · simp
    · simp
    · simp at hrest
  rw [dropHexMark_map_plainDigit (hmark hc)]
  split
  case isTrue hfront =>
    rw [writes_iff_of_mark hfront.1 hfront.2 (by simp), readDigits?_map_plainDigit fun e he => by
      rw [List.mem_singleton.1 (hlast he)]
      exact hmark hc]
    simp
  case isFalse hfront =>
    rw [writes_iff_of_not_mark hfront, readDigits?_map_plainDigit fun e he => by
      rcases List.mem_cons.1 he with rfl | he
      · exact hmark ha
      rcases List.mem_cons.1 he with rfl | he
      · exact hmark hb
      · rw [List.mem_singleton.1 (hlast he)]
        exact hmark hc]
    simp

/-- Which four code points are read as a number, the first three of them alphanumeric. -/
theorem readHexadecimal?_iff (ha : a.isAlphanumeric) (hb : b.isAlphanumeric)
    (hc : c.isAlphanumeric) {k : Int} :
    readHexadecimal? [a, b, c, d] = some k ↔ ∃ n : Nat, k = n ∧ Denotes [a, b, c, d] n := by
  have hblank : ∀ {e : CodePoint}, e.isAlphanumeric → e.isNumeralBlank = false := fun he =>
    Bool.not_eq_true _ ▸ fun h => CodePoint.not_isAlphanumeric_of_isNumeralBlank h he
  obtain ⟨-, hminus, hplus⟩ := plainDigit_ne_of_isAlphanumeric ha
  -- At most the last code point is trimmed, and there is no sign.
  have hrun : ∀ rest : Text, rest.length ≤ 1 → Text.trimNumeral [a, b, c, d] = a :: b :: c :: rest →
      (readHexadecimal? [a, b, c, d] = some k ↔
        ∃ n : Nat, k = n ∧ Writes (a :: b :: c :: rest) n) := by
    intro rest hlength hrest
    have hsign : sign (plain [a, b, c, d]) = (false, (a :: b :: c :: rest).map plainDigit) := by
      rw [plain, hrest, List.map_cons, sign, if_neg hminus, if_neg hplus]
    simp only [readHexadecimal?, hsign, Option.bind_eq_bind, Option.bind_eq_some_iff]
    simp only [signed, Bool.false_eq_true, if_false, Option.pure_def, Option.some.injEq]
    refine exists_congr fun n => ?_
    rw [readDigits?_dropHexMark ha hb hc hlength, and_comm, eq_comm]
  by_cases hd : d.isNumeralBlank
  · rw [hrun [] (by simp) (by
      simp [Text.trimNumeral, Text.dropWhileEnd, List.dropWhile, hd, hblank ha, hblank hc])]
    exact exists_congr fun n => and_congr_right fun _ =>
      (denotes_concat_iff_of_blank (t := [a, b, c]) hd).symm
  · rw [hrun [d] (by simp) (by
      simp [Text.trimNumeral, Text.dropWhileEnd, List.dropWhile, hd, hblank ha])]
    exact exists_congr fun n => and_congr_right fun _ =>
      (denotes_concat_iff_of_not_blank (t := [a, b, c]) hd).symm

end Numeral

namespace CodePoint

open Numeral (wideNumber)

variable {c : CodePoint} {n : Nat}

/-- The digit of base 16 with a value below sixteen. -/
def hexDigit (n : Nat) : CodePoint := ofNat (if n < 10 then 48 + n else 87 + n)

/-- The last four digits of a number. -/
def fourDigits (n : Nat) : Text :=
  [hexDigit (n / 4096 % 16), hexDigit (n / 256 % 16), hexDigit (n / 16 % 16), hexDigit (n % 16)]

theorem isHexDigit_hexDigit (h : n < 16) :
    (hexDigit n).isHexDigit ∧ (hexDigit n).wideHexValue? = some n := by
  have hdigits : ∀ n < 16, (hexDigit n).isHexDigit ∧ (hexDigit n).wideHexValue? = some n := by
    decide
  exact hdigits n h

theorem isHexDigit_of_mem_fourDigits : ∀ d ∈ fourDigits n, d.isHexDigit := by
  have hdigit (k : Nat) : (hexDigit (k % 16)).isHexDigit :=
    (isHexDigit_hexDigit (Nat.mod_lt k (by decide))).1
  simp [fourDigits, hdigit]

/-- Four digits write a number of sixteen bits. -/
theorem wideNumber_fourDigits (h : n ≤ 0xFFFF) : wideNumber 0 (fourDigits n) = n := by
  have hdigit (k : Nat) : (hexDigit (k % 16)).wideHexValue? = some (k % 16) :=
    (isHexDigit_hexDigit (Nat.mod_lt k (by decide))).2
  simp only [wideNumber, fourDigits, List.foldl_cons, List.foldl_nil, hdigit, Option.getD_some]
  omega

theorem ofNat_val (c : CodePoint) : ofNat c.val = c := dif_pos c.isLt

end CodePoint

end GraphSchema
