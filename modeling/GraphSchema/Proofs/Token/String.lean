import GraphSchema.Proofs.Token.Ahead
import GraphSchema.Proofs.Token.StringLiteral

/-!
# String tokens

Which strings a lexer returns. The code points behind `\u` have to make up a numeral of base 16, and
need not be four ASCII digits; all else is as the grammar of the language has it.

## Main definitions

* `Scan.StandsAt`: a string of a grammar stands at a place in a text.

## Main statements

* `Lexer.Before.strings`: the strings that are returned, those of the language among them, and that
  all texts of code points below `0x10000` can be written in this way.
-/

namespace GraphSchema

namespace Scan

variable {source s t value : Text} {i start stop : Nat} {isCode : Text → CodePoint → Prop}

/-- A string of a grammar stands at offset `start` of a text, up to offset `stop`, and its
characters stand for `value`. -/
def StandsAt (isCode : Text → CodePoint → Prop) (source : Text) (start stop : Nat) (value : Text) :
    Prop :=
  ∃ chars : List StringChar, (∀ ch ∈ chars, ch.Fits isCode) ∧ literal chars <+: source.drop start ∧
    start + (literal chars).length = stop ∧ chars.map StringChar.value = value

theorem StringChar.Fits.isRead {ch : StringChar} (h : ch.Conforms) : ch.IsRead := by
  cases h with
  | plain h => exact .plain h
  | short h => exact .short h
  | code h => exact .code h.isWideCode

/-- A character that is read is one of the language if all digits behind `\u` are ASCII digits. -/
theorem StringChar.Fits.conforms {ch : StringChar} (h : ch.IsRead)
    (hd : ∀ digits c, ch = .code digits c → ∀ d ∈ digits, d.isHexDigit) : ch.Conforms := by
  cases h with
  | plain h => exact .plain h
  | short h => exact .short h
  | code h => exact .code (isHexCode_iff.2 ⟨h, hd _ _ rfl⟩)

/-- A string of the language is a string that is read with ASCII digits only behind each `\u`. -/
theorem standsAt_isHexCode_iff :
    StandsAt IsHexCode source start stop value ↔ StandsAt IsWideCode source start stop value ∧
      ∀ chars : List StringChar, (∀ ch ∈ chars, ch.IsRead) → literal chars <+: source.drop start →
        ∀ digits c, .code digits c ∈ chars → ∀ d ∈ digits, d.isHexDigit := by
  constructor
  · rintro ⟨chars, hchars, ⟨r, hr⟩, hstop, hvalue⟩
    have hread : ∀ ch ∈ chars, ch.IsRead := fun ch hch => (hchars ch hch).isRead
    refine ⟨⟨chars, hread, ⟨r, hr⟩, hstop, hvalue⟩, fun chars' hread' ⟨r', hr'⟩ digits c hmem => ?_⟩
    obtain rfl := literal_inj hread' hread (hr'.trans hr.symm)
    cases hchars _ hmem with
    | code h => exact h.all
  · rintro ⟨⟨chars, hread, hprefix, hstop, hvalue⟩, hdigits⟩
    refine ⟨chars, fun ch hch => (hread ch hch).conforms ?_, hprefix, hstop, hvalue⟩
    rintro digits c rfl
    exact hdigits chars hread hprefix digits c hch

theorem token_eq_string (ht : ¬tripleQuote.isPrefixOf (quotationMark :: t)) :
    token quotationMark ⟨i, quotationMark :: t⟩ = string ⟨i, quotationMark :: t⟩ := by
  have hrun : token quotationMark ⟨i, quotationMark :: t⟩ =
      (if tripleQuote.isPrefixOf (quotationMark :: t) then blockString else string)
        ⟨i, quotationMark :: t⟩ := rfl
  rw [hrun, if_neg ht]

end Scan

namespace Lexer

open Scan

variable {source t : Text} {i : Nat} {l : Lexer}

/-- Before a string that is no block string the lexer reads one. -/
theorem Before.returns_iff_string (h : l.Before source i)
    (hopen : [quotationMark] <+: source.drop i) (hblock : ¬tripleQuote <+: source.drop i)
    {start stop : Nat} {value : Text} : l.Returns .string start stop value ↔
      start = i ∧ StandsAt IsWideCode source i stop value := by
  obtain ⟨t, ht⟩ := hopen
  have ht : source.drop i = quotationMark :: t := ht.symm
  rw [ht, ← List.isPrefixOf_iff_prefix] at hblock
  rw [h.returns_iff ht, token_eq_string hblock, StandsAt, ht]
  constructor
  · rintro ⟨token, q, hread, -, rfl, rfl, rfl⟩
    obtain ⟨chars, r, hchars, heq, -, rfl⟩ := string_eq_ok_iff.1 hread
    exact ⟨rfl, chars, hchars, ⟨r, heq.symm⟩, rfl, rfl⟩
  · rintro ⟨rfl, chars, hchars, ⟨r, heq⟩, rfl, rfl⟩
    exact ⟨_, _, string_eq_ok_iff.2 ⟨chars, r, hchars, heq.symm, rfl, rfl⟩, rfl, rfl, rfl, rfl⟩

/-- The strings that are returned are those that are read, with the text that their characters
stand for. They are the strings of the language if and only if all digits behind `\u` are ASCII
digits of base 16. Any list of code points below `0x10000` is returned for the string that writes
each as an escape sequence of four digits. -/
theorem Before.strings (h : l.Before source i) (hopen : [quotationMark] <+: source.drop i)
    (hblock : ¬tripleQuote <+: source.drop i) :
    (∀ start stop value, l.Returns .string start stop value ↔
      start = i ∧ StandsAt IsWideCode source i stop value) ∧
    (∀ stop value, StandsAt IsHexCode source i stop value ↔ l.Returns .string i stop value ∧
      ∀ chars : List StringChar, (∀ ch ∈ chars, ch.IsRead) → literal chars <+: source.drop i →
        ∀ digits c, .code digits c ∈ chars → ∀ d ∈ digits, d.isHexDigit) ∧
    ∀ value : Text, (∀ c ∈ value, c.val ≤ 0xFFFF) →
      literal (value.map StringChar.encode) <+: source.drop i →
        l.Returns .string i (i + (literal (value.map StringChar.encode)).length) value := by
  have hreturns {start stop : Nat} {value : Text} : l.Returns .string start stop value ↔
      start = i ∧ StandsAt IsWideCode source i stop value :=
    h.returns_iff_string hopen hblock
  refine ⟨fun _ _ _ => hreturns, fun stop value => ?_, fun value hvalue hprefix => ?_⟩
  · rw [standsAt_isHexCode_iff, hreturns, and_iff_right rfl]
  · refine hreturns.2 ⟨rfl, _, fun ch hch => ?_, hprefix, rfl, ?_⟩
    · obtain ⟨c, hc, rfl⟩ := List.mem_map.1 hch
      exact (StringChar.conforms_encode (hvalue c hc)).isRead
    · rw [List.map_map]
      exact List.map_id value

/-- A blank in the place of the last digit. -/
theorem strings_blank : Before "\"\\u041 \"" 0 ⟨⟨0, "\"\\u041 \""⟩, true, false⟩ ∧
    [quotationMark] <+: List.drop 0 ("\"\\u041 \"" : Text) ∧
    ¬tripleQuote <+: List.drop 0 ("\"\\u041 \"" : Text) ∧
    Returns ⟨⟨0, "\"\\u041 \""⟩, true, false⟩ .string 0 8 "A" ∧
    ¬StandsAt IsHexCode "\"\\u041 \"" 0 8 "A" := by
  have hbefore : Before "\"\\u041 \"" 0 ⟨⟨0, "\"\\u041 \""⟩, true, false⟩ :=
    before_first (c := '"') (t := "\\u041 \"") (by decide)
  have hopen : [quotationMark] <+: List.drop 0 ("\"\\u041 \"" : Text) := by decide
  have hblock : ¬tripleQuote <+: List.drop 0 ("\"\\u041 \"" : Text) := by decide
  obtain ⟨hreturns, hlanguage, -⟩ := hbefore.strings hopen hblock
  have hchars : ∀ ch ∈ [StringChar.code "041 " 'A'], ch.IsRead := by
    intro ch hch
    obtain rfl := List.mem_singleton.1 hch
    refine .code ⟨rfl, 0x41, ⟨[], "041", some ' ', rfl, .none, by decide, by decide, by decide, ?_⟩,
      by decide⟩
    rintro _ ⟨⟩
    decide
  have hprefix : literal [.code "041 " 'A'] <+: List.drop 0 ("\"\\u041 \"" : Text) := by decide
  refine ⟨hbefore, hopen, hblock, (hreturns 0 8 "A").2 ⟨rfl, _, hchars, hprefix, rfl, rfl⟩, ?_⟩
  intro h
  have := ((hlanguage 8 "A").1 h).2 _ hchars hprefix _ _ (List.mem_singleton.2 rfl) ' ' (by decide)
  exact absurd this (by decide)

end Lexer

end GraphSchema
