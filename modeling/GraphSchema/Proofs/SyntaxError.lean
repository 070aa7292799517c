import GraphSchema.Proofs.Parser.Whole
import GraphSchema.Proofs.Source.Line

/-!
# Showing syntax errors

An error is shown with the lines around it, and this is possible just if it lies in its text. All
errors of a text do so but for one: where the text ends within an escape sequence of a string, the
error is reported one code point behind the end of the text.

## Main definitions

* `SyntaxError.Raised`: the syntax errors of a text.

## Main statements

* `SyntaxError.isSome_highlighted?`, `SyntaxError.isSome_address?`: which errors can be shown.
* `SyntaxError.Raised.shown_iff`: those that are raised.
-/

namespace GraphSchema

namespace SyntaxError

variable {source : Text} {e : SyntaxError}

theorem isSome_address? : (e.address? source).isSome ↔ e.IsIn source := Source.isSome_locate?

theorem isSome_highlighted? : (e.highlighted? source).isSome ↔ e.IsIn source := by
  rw [highlighted?, Source.excerpt?, Option.isSome_map, Option.isSome_map]
  exact Source.isSome_locate?

/-- The syntax errors of a text: those that its lexer meets, in whatever state it has come to, and
those of the rules for whole texts. -/
inductive Raised (source : Text) : SyntaxError → Prop
  | lexer {l next : Lexer} {e : SyntaxError} (hl : Lexer.Reached source l)
      (h : l.next = .error e next) : Raised source e
  | parse {name : Option Text} {located : Bool} {e : SyntaxError}
      (h : (Parser.Document.ofText source name located).parse = .error e) : Raised source e
  | parseValue {name : Option Text} {located : Bool} {e : SyntaxError}
      (h : (Parser.Document.ofText source name located).parseValue = .error e) : Raised source e
  | parseType {name : Option Text} {located : Bool} {e : SyntaxError}
      (h : (Parser.Document.ofText source name located).parseType = .error e) : Raised source e

theorem Raised.isOf (h : Raised source e) : e.IsOf source := by
  cases h with
  | lexer hl h => exact .inr ⟨_, _, hl, h⟩
  | parse h => exact Parser.Document.isOf_of_parse (Nat.le_refl _) h
  | parseValue h => exact Parser.Document.isOf_of_parseValue (Nat.le_refl _) h
  | parseType h => exact Parser.Document.isOf_of_parseType (Nat.le_refl _) h

/-- A syntax error lies in its text and can be shown, unless the lexer meets it at a string that the
text breaks off within an escape sequence: this error is reported one code point behind the end of
the text and cannot be shown. -/
theorem Raised.shown_iff (h : Raised source e) :
    0 ≤ e.position ∧ e.position ≤ source.length + 1 ∧
    ((e.highlighted? source).isSome ↔ e.position ≤ source.length) ∧
    ((e.address? source).isSome ↔ e.position ≤ source.length) ∧
    (source.length < e.position → e = ⟨.nonTerminatedString, source.length + 1⟩) ∧
    (source.length < e.position ↔
      ∃ l next, Lexer.Reached source l ∧ l.next = .error e next ∧ l.IsCut) := by
  have hcases : e.IsIn source ∨
      e = ⟨.nonTerminatedString, source.length + 1⟩ ∧
        ∃ l next, Lexer.Reached source l ∧ l.next = .error e next ∧ l.IsCut := by
    rcases h.isOf with hin | ⟨l, next, hl, hnext⟩
    · exact .inl hin
    · rcases hl.misses hnext with ⟨hcut, he⟩ | ⟨-, hin⟩
      · exact .inr ⟨he, l, next, hl, hnext, hcut⟩
      · exact .inl hin
  have hcut : (∃ l next, Lexer.Reached source l ∧ l.next = .error e next ∧ l.IsCut) →
      source.length < e.position := by
    rintro ⟨l, next, hl, hnext, hcut⟩
    rcases hl.misses hnext with ⟨-, rfl⟩ | ⟨hnot, -⟩
    · exact Int.lt_add_one_of_le (Int.le_refl _)
    · exact absurd hcut hnot
  have hrange : 0 ≤ e.position ∧ e.position ≤ source.length + 1 := by
    rcases hcases with ⟨h0, hl⟩ | ⟨rfl, -⟩
    · omega
    · simp only [Int.le_refl, and_true]
      omega
  have hshown : e.IsIn source ↔ e.position ≤ source.length :=
    ⟨And.right, fun hl => ⟨hrange.1, hl⟩⟩
  refine ⟨hrange.1, hrange.2, isSome_highlighted?.trans hshown, isSome_address?.trans hshown,
    fun hl => ?_, fun hl => ?_, hcut⟩
  · exact (hcases.resolve_left fun h => absurd h.2 (Int.not_le.2 hl)).1
  · exact (hcases.resolve_left fun h => absurd h.2 (Int.not_le.2 hl)).2

/-- A text that ends behind the backslash of a string. -/
theorem Raised.shown_iff_escape :
    Raised "\"\\" ⟨.nonTerminatedString, 3⟩ ∧
      ((⟨.nonTerminatedString, 3⟩ : SyntaxError).highlighted? "\"\\" = none) := by
  have hnext : (Lexer.opened "\"\\").next =
      .error ⟨.nonTerminatedString, 3⟩ ⟨⟨2, []⟩, true, false⟩ := by with_unfolding_all rfl
  have h : Raised "\"\\" ⟨.nonTerminatedString, 3⟩ := .lexer Lexer.reached_opened hnext
  refine ⟨h, ?_⟩
  have hshown := (Raised.shown_iff h).2.2.1
  rw [← Option.not_isSome_iff_eq_none, hshown]
  decide

end SyntaxError

end GraphSchema
