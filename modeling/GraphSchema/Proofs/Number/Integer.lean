import GraphSchema.Proofs.Text.Hexadecimal
import Mathlib.Data.List.DropRight
import Mathlib.Data.List.TakeWhile

/-!
# Decimal numerals

Which texts are read as an integer: blanks at both ends, a sign, and runs of decimal digits of any
script with single underscores between them.

## Main definitions

* `Numeral.IsRun`: digits without underscores.
* `Numeral.decimalNumber`: the number that digits write.
* `Numeral.Decimal`: a decimal numeral by its parts, with its text and its value.

## Main statements

* `Numeral.readDigits?_iff`: the runs of digits that are read, and as which number.
* `Numeral.readInteger_iff`: a text is read as an integer just if it is a decimal numeral of this
  value.
-/

namespace GraphSchema

namespace CodePoint

variable {c : CodePoint} {n : Nat}

/-- The decimal digits are the code points that are read as a digit below ten. -/
theorem decimal?_eq_filter (c : CodePoint) :
    c.decimal? = (Numeral.digitValue? (Numeral.plainDigit c)).filter (· < 10) := by
  have hlow : ∀ v < 127, (ofNat v).decimal? = (Numeral.digitValue? (ofNat v)).filter (· < 10) := by
    decide +kernel
  have hascii : ∀ n < 10, some n = (Numeral.digitValue? (ofNat (48 + n))).filter (· < 10) := by
    decide
  rcases plainDigit_cases c with ⟨hc, hplain⟩ | ⟨-, n, hn, hdec, hplain⟩ | ⟨-, hdec, hplain⟩
  · rw [hplain, ← ofNat_val c]
    exact hlow c.val hc
  · rw [hplain, hdec]
    exact hascii n hn
  · rw [hplain, hdec]
    decide

theorem decimal?_eq_some_iff :
    c.decimal? = some n ↔ Numeral.digitValue? (Numeral.plainDigit c) = some n ∧ n < 10 := by
  rw [decimal?_eq_filter, Option.filter_eq_some_iff, decide_eq_true_iff]

/-- The digits that are counted. -/
theorem isAsciiDigit_plainDigit (h : c.decimal? = some n) :
    (Numeral.plainDigit c).isAsciiDigit := by
  have hlow : ∀ v < 127, (ofNat v).decimal?.isSome → (ofNat v).isAsciiDigit := by decide +kernel
  have hascii : ∀ n < 10, (ofNat (48 + n)).isAsciiDigit := by decide
  rcases plainDigit_cases c with ⟨hc, hplain⟩ | ⟨-, d, hd, -, hplain⟩ | ⟨-, hdec, -⟩
  · rw [hplain, ← ofNat_val c]
    exact hlow c.val hc (by rw [ofNat_val, h]; rfl)
  · rw [hplain]
    exact hascii d hd
  · rw [hdec] at h
    cases h

/-- An underscore is no digit, nor is a sign. -/
theorem plainDigit_ne_of_decimal? (h : c.decimal? = some n) :
    Numeral.plainDigit c ≠ '_' ∧ Numeral.plainDigit c ≠ '-' ∧ Numeral.plainDigit c ≠ '+' :=
  Numeral.plainDigit_ne_of_isAlphanumeric (isAlphanumeric_of_decimal? h)

end CodePoint

namespace Numeral

variable {t cs run : Text} {groups : List Text} {n m k : Nat} {closed : Bool}

/-- Decimal digits of any script. -/
def AreDigits (cs : Text) : Prop := ∀ c ∈ cs, c.decimal?.isSome

/-- Decimal digits, one or more. -/
def IsRun (cs : Text) : Prop := cs ≠ [] ∧ AreDigits cs

/-- The number that decimal digits write, after digits that write `n`. -/
def decimalNumber (n : Nat) (cs : Text) : Nat :=
  cs.foldl (fun n c => n * 10 + c.decimal?.getD 0) n

/-- Groups with an underscore in front of each. -/
def marked (groups : List Text) : Text := groups.flatMap fun g => CodePoint.ofChar '_' :: g

@[simp]
theorem marked_nil : marked [] = [] := rfl

@[simp]
theorem marked_cons (g : Text) :
    marked (g :: groups) = CodePoint.ofChar '_' :: (g ++ marked groups) :=
  rfl

theorem AreDigits.cons {c : CodePoint} (h : AreDigits (c :: cs)) :
    (∃ v, c.decimal? = some v) ∧ AreDigits cs :=
  ⟨Option.isSome_iff_exists.1 (h c List.mem_cons_self), fun d hd => h d (List.mem_cons_of_mem _ hd)⟩

theorem IsRun.isEmpty (h : IsRun run) : run.isEmpty = false := by simpa using h.1

theorem decimalNumber_append :
    decimalNumber n (run ++ cs) = decimalNumber (decimalNumber n run) cs :=
  List.foldl_append

/-! ## Reading digits -/

/-- Digits in front are read, and what follows is read after them. -/
theorem readDigits?_append (h : AreDigits run) :
    readDigits? 10 n closed ((run ++ cs).map plainDigit) =
      readDigits? 10 (decimalNumber n run) (closed || !run.isEmpty) (cs.map plainDigit) := by
  induction run generalizing n closed with
  | nil => simp [decimalNumber]
  | cons c run ih =>
    obtain ⟨⟨v, hv⟩, hrun⟩ := h.cons
    obtain ⟨hdigit, hlt⟩ := CodePoint.decimal?_eq_some_iff.1 hv
    rw [List.cons_append, List.map_cons, readDigits?,
      if_neg (CodePoint.plainDigit_ne_of_decimal? hv).1, hdigit]
    dsimp only
    rw [if_pos hlt, ih hrun]
    simp [decimalNumber, hv]

/-- Digits in front are counted, and what follows is counted after them. -/
theorem countDigits?_append (h : AreDigits run) :
    countDigits? k closed ((run ++ cs).map plainDigit) =
      countDigits? (k + run.length) (closed || !run.isEmpty) (cs.map plainDigit) := by
  induction run generalizing k closed with
  | nil => simp
  | cons c run ih =>
    obtain ⟨⟨v, hv⟩, hrun⟩ := h.cons
    rw [List.cons_append, List.map_cons, countDigits?,
      if_pos (CodePoint.isAsciiDigit_plainDigit hv), ih hrun]
    simp [Nat.add_assoc, Nat.add_comm 1]

/-- Groups of digits are read one after the other. -/
theorem readDigits?_groups (h : ∀ g ∈ groups, IsRun g) :
    readDigits? 10 n true ((marked groups).map plainDigit) =
      some (decimalNumber n groups.flatten) := by
  induction groups generalizing n with
  | nil => rfl
  | cons g groups ih =>
    obtain ⟨hg, hgroups⟩ := List.forall_mem_cons.1 h
    have hmark : plainDigit '_' = '_' := by decide
    rw [marked_cons, List.map_cons, hmark, readDigits?, if_pos rfl,
      if_pos rfl, readDigits?_append hg.2, hg.isEmpty, Bool.not_false, Bool.or_true, ih hgroups,
      List.flatten_cons, decimalNumber_append]

/-- The digits of all groups are counted. -/
theorem countDigits?_groups (h : ∀ g ∈ groups, IsRun g) :
    countDigits? k true ((marked groups).map plainDigit) =
      some (k + groups.flatten.length) := by
  induction groups generalizing k with
  | nil => rfl
  | cons g groups ih =>
    obtain ⟨hg, hgroups⟩ := List.forall_mem_cons.1 h
    have hmark : plainDigit '_' = '_' := by decide
    have hdigit : CodePoint.isAsciiDigit '_' = false := by decide
    rw [marked_cons, List.map_cons, hmark, countDigits?, hdigit,
      if_neg Bool.false_ne_true, if_pos rfl, if_pos rfl, countDigits?_append hg.2, hg.isEmpty,
      Bool.not_false, Bool.or_true, ih hgroups, List.flatten_cons, List.length_append,
      Nat.add_assoc]

/-- What is read as digits consists of groups. -/
theorem exists_of_readDigits? (h : readDigits? 10 n closed (cs.map plainDigit) = some m) :
    ∃ run groups, cs = run ++ marked groups ∧ (closed ∨ run ≠ []) ∧ AreDigits run ∧
      ∀ g ∈ groups, IsRun g := by
  induction cs generalizing n closed with
  | nil =>
    refine ⟨[], [], rfl, .inl ?_, by simp [AreDigits], by simp⟩
    by_contra hclosed
    simp [readDigits?, hclosed] at h
  | cons c cs ih =>
    rw [List.map_cons, readDigits?] at h
    split at h
    · rename_i hmark
      obtain rfl : c = '_' := CodePoint.eq_of_plainDigit_eq (by decide) hmark
      split at h
      · obtain ⟨run, groups, rfl, hrun, hdigits, hgroups⟩ := ih h
        refine ⟨[], run :: groups, rfl, .inl ‹_›, by simp [AreDigits], ?_⟩
        exact List.forall_mem_cons.2 ⟨⟨hrun.resolve_left Bool.false_ne_true, hdigits⟩, hgroups⟩
      · cases h
    · split at h
      · cases h
      · rename_i d hd
        split at h
        · have hdec := CodePoint.decimal?_eq_some_iff.2 ⟨hd, ‹_›⟩
          obtain ⟨run, groups, rfl, -, hdigits, hgroups⟩ := ih h
          refine ⟨c :: run, groups, rfl, .inr (by simp), ?_, hgroups⟩
          exact List.forall_mem_cons.2 ⟨by rw [hdec]; rfl, hdigits⟩
        · cases h

/-- The digits that are read, and as which number. -/
theorem readDigits?_marked (hrun : IsRun run) (hgroups : ∀ g ∈ groups, IsRun g) :
    readDigits? 10 0 false ((run ++ marked groups).map plainDigit) =
      some (decimalNumber 0 (run ++ groups.flatten)) := by
  rw [readDigits?_append hrun.2, hrun.isEmpty, Bool.not_false, Bool.or_true,
    readDigits?_groups hgroups, decimalNumber_append]

theorem countDigits?_marked (hrun : IsRun run) (hgroups : ∀ g ∈ groups, IsRun g) :
    countDigits? 0 false ((run ++ marked groups).map plainDigit) =
      some (run ++ groups.flatten).length := by
  rw [countDigits?_append hrun.2, hrun.isEmpty, Bool.not_false, Bool.or_true,
    countDigits?_groups hgroups, List.length_append, Nat.zero_add]

/-! ## Numerals -/

/-- Nothing, a plus or a minus. -/
def IsSign (s : Text) : Prop := s = [] ∨ s = "+" ∨ s = "-"

/-- A decimal numeral by its parts. -/
structure Decimal where
  before : Text
  sign : Text
  run : Text
  groups : List Text
  after : Text
  blank_before : ∀ c ∈ before, c.isNumeralBlank
  blank_after : ∀ c ∈ after, c.isNumeralBlank
  isSign : IsSign sign
  isRun_run : IsRun run
  isRun_groups : ∀ g ∈ groups, IsRun g
  length_le : (run ++ groups.flatten).length ≤ maxDigits

namespace Decimal

/-- The text that is written. -/
def text (d : Decimal) : Text := d.before ++ (d.sign ++ (d.run ++ marked d.groups)) ++ d.after

/-- The integer that is written. -/
def value (d : Decimal) : Int := signed (d.sign = "-") (decimalNumber 0 (d.run ++ d.groups.flatten))

end Decimal

theorem not_isNumeralBlank_of_decimal? {c : CodePoint} (h : c.decimal?.isSome) :
    c.isNumeralBlank = false := by
  obtain ⟨v, hv⟩ := Option.isSome_iff_exists.1 h
  by_contra hblank
  exact CodePoint.not_isAlphanumeric_of_isNumeralBlank (by simpa using hblank)
    (CodePoint.isAlphanumeric_of_decimal? hv)

/-- What stands between blanks is left. -/
theorem trimNumeral_append {before body after : Text} (hbefore : ∀ c ∈ before, c.isNumeralBlank)
    (hafter : ∀ c ∈ after, c.isNumeralBlank) (hbody : ∀ c ∈ body, c.isNumeralBlank = false)
    (hne : body ≠ []) : Text.trimNumeral (before ++ body ++ after) = body := by
  have hfront : (before ++ body ++ after).dropWhile CodePoint.isNumeralBlank = body ++ after := by
    rw [List.append_assoc, List.dropWhile_append_of_pos hbefore]
    cases body with
    | nil => exact absurd rfl hne
    | cons b body => exact List.dropWhile_cons_of_neg (by simp [hbody b List.mem_cons_self])
  have hback : (body ++ after).reverse.dropWhile CodePoint.isNumeralBlank = body.reverse := by
    rw [List.reverse_append, List.dropWhile_append_of_pos fun c hc =>
      hafter c (List.mem_reverse.1 hc)]
    refine List.dropWhile_eq_self_iff.2 fun hlen => ?_
    rw [hbody _ (List.mem_reverse.1 (List.getElem_mem hlen))]
    exact Bool.false_ne_true
  rw [Text.trimNumeral, hfront, Text.dropWhileEnd, hback, List.reverse_reverse]

/-- Every text has blanks at both ends, perhaps none, around what is left. -/
theorem exists_trimNumeral (t : Text) : ∃ before after, t = before ++ t.trimNumeral ++ after ∧
    (∀ c ∈ before, c.isNumeralBlank) ∧ ∀ c ∈ after, c.isNumeralBlank := by
  refine ⟨t.takeWhile CodePoint.isNumeralBlank,
    (t.dropWhile CodePoint.isNumeralBlank).rtakeWhile CodePoint.isNumeralBlank, ?_,
    fun c hc => List.mem_takeWhile_imp hc, fun c hc => List.mem_rtakeWhile_imp hc⟩
  simp only [Text.trimNumeral, Text.dropWhileEnd, List.rtakeWhile, List.append_assoc,
    ← List.reverse_append, List.takeWhile_append_dropWhile, List.reverse_reverse]

/-- A sign in front is told apart from the digits. -/
theorem sign_map_plainDigit {s : Text} (hs : IsSign s) (hrun : IsRun run) :
    sign ((s ++ (run ++ cs)).map plainDigit) = (decide (s = "-"), (run ++ cs).map plainDigit) := by
  rcases hs with rfl | rfl | rfl
  · cases run with
    | nil => exact absurd rfl hrun.1
    | cons c run =>
      obtain ⟨⟨v, hv⟩, -⟩ := hrun.2.cons
      obtain ⟨-, hminus, hplus⟩ := CodePoint.plainDigit_ne_of_decimal? hv
      rw [List.nil_append, List.cons_append, List.map_cons, sign, if_neg hminus, if_neg hplus]
      rfl
  · rfl
  · rfl

/-- A text is a sign, perhaps none, and what is read as digits. -/
theorem exists_sign (t : Text) : ∃ s rest, t = s ++ rest ∧ IsSign s ∧
    sign (t.map plainDigit) = (decide (s = "-"), rest.map plainDigit) := by
  cases t with
  | nil => exact ⟨[], [], rfl, .inl rfl, rfl⟩
  | cons c t =>
    rw [List.map_cons, sign]
    split
    · obtain rfl : c = '-' := CodePoint.eq_of_plainDigit_eq (by decide) ‹_›
      exact ⟨"-", t, rfl, .inr (.inr rfl), rfl⟩
    split
    · obtain rfl : c = '+' := CodePoint.eq_of_plainDigit_eq (by decide) ‹_›
      exact ⟨"+", t, rfl, .inr (.inl rfl), rfl⟩
    · exact ⟨[], c :: t, rfl, .inl rfl, rfl⟩

namespace Decimal

variable (d : Decimal)

/-- A numeral without its blanks. -/
def body : Text := d.sign ++ (d.run ++ marked d.groups)

theorem not_isNumeralBlank_of_mem_body : ∀ c ∈ d.body, c.isNumeralBlank = false := by
  have hsign : ∀ c ∈ d.sign, c.isNumeralBlank = false := by
    rcases d.isSign with h | h | h <;> rw [h] <;> decide
  have hmarked : ∀ c ∈ marked d.groups, c.isNumeralBlank = false := by
    intro c hc
    obtain ⟨g, hg, hc⟩ := List.mem_flatMap.1 hc
    rcases List.mem_cons.1 hc with rfl | hc
    · decide
    · exact not_isNumeralBlank_of_decimal? ((d.isRun_groups g hg).2 c hc)
  intro c hc
  rcases List.mem_append.1 hc with hc | hc
  · exact hsign c hc
  rcases List.mem_append.1 hc with hc | hc
  · exact not_isNumeralBlank_of_decimal? (d.isRun_run.2 c hc)
  · exact hmarked c hc

/-- Blanks are stripped. -/
theorem plain_text : plain d.text = d.body.map plainDigit := by
  have hne : d.body ≠ [] := by simp [body, d.isRun_run.1]
  rw [plain, text, ← body, trimNumeral_append d.blank_before d.blank_after
    d.not_isNumeralBlank_of_mem_body hne]

end Decimal

/-- The texts that are read as an integer, and as which one. -/
theorem readInteger_iff {i : Int} :
    readInteger t = .ok i ↔ ∃ d : Decimal, d.text = t ∧ d.value = i := by
  constructor
  · intro h
    obtain ⟨before, after, ht, hbefore, hafter⟩ := exists_trimNumeral t
    obtain ⟨s, rest, hbody, hs, hsign⟩ := exists_sign t.trimNumeral
    simp only [readInteger, plain, hsign] at h
    split at h
    · cases h
    rename_i count hcount
    split at h
    · cases h
    rename_i hlength
    split at h
    · rename_i n hn
      obtain ⟨run, groups, rfl, hne, hdigits, hgroups⟩ := exists_of_readDigits? hn
      have hrun : IsRun run := ⟨hne.resolve_left Bool.false_ne_true, hdigits⟩
      rw [countDigits?_marked hrun hgroups] at hcount
      rw [readDigits?_marked hrun hgroups] at hn
      cases hcount
      cases hn
      cases h
      exact ⟨⟨before, s, run, groups, after, hbefore, hafter, hs, hrun, hgroups, by omega⟩,
        by rw [Decimal.text, ← hbody, ← ht], rfl⟩
    · cases h
  · rintro ⟨d, rfl, rfl⟩
    have hlength := d.length_le
    simp only [readInteger, d.plain_text, Decimal.body, sign_map_plainDigit d.isSign d.isRun_run,
      countDigits?_marked d.isRun_run d.isRun_groups, readDigits?_marked d.isRun_run d.isRun_groups]
    rw [if_neg (by omega), Decimal.value]

end Numeral

end GraphSchema
