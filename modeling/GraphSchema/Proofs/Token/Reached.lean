import GraphSchema.Proofs.Token.Quoted
import GraphSchema.Proofs.Token.Step

/-!
# Where a lexer stands

Whatever a lexer was asked before, and whatever errors it met, it stands at a place of its text. The
offsets of its errors are those of places of the text, except where the text ends within an escape
sequence.

## Main definitions

* `Lexer.Reached`: the states that the lexer of a text can come to.
* `Lexer.IsCut`: a string that ends within an escape sequence is the next token.

## Main statements

* `Lexer.Reached.in`: in all states a lexer stands at a place of its text.
* `Lexer.Reached.misses`: the errors of a lexer.
* `Lexer.IsCut.exists_error`: a string that ends within an escape sequence cannot be read.
-/

namespace GraphSchema

namespace Lexer

open Scan (splitIgnored)

variable {source : Text} {l next : Lexer}

/-- A string that ends within an escape sequence is the next token. -/
structure IsCut (l : Lexer) : Prop where
  started : l.started = true
  not_done : l.done = false
  ahead : Scan.IsCut (splitIgnored l.place.rest).2.2

theorem isCut_iff {p : Place} {comments : List Text} {ignored left : Text}
    (hs : splitIgnored p.rest = (comments, ignored, left)) :
    IsCut ⟨p, true, false⟩ ↔ Scan.IsCut left := by
  constructor
  · intro h
    have := h.ahead
    rwa [hs] at this
  · exact fun h => ⟨rfl, rfl, by rw [hs]; exact h⟩

/-- What is read behind what is ignored. -/
theorem yields_token {p : Place} {comments : List Text} {ignored left : Text} {c : CodePoint}
    (hp : p.In source) (hs : splitIgnored p.rest = (comments, ignored, c :: left)) :
    Scan.Yields source (Scan.token c) (p.skip ignored.length)
      (fun t q => Scan.Spans (p.skip ignored.length) t q ∧ Scan.isVisible c ∧
        ¬IsCut ⟨p, true, false⟩)
      (Scan.Misses source (IsCut ⟨p, true, false⟩)) := by
  have hrest := Place.rest_skip_ignored hs
  have h := Scan.yields_token (hp.skip_ignored hs) hrest
  rwa [hrest, ← isCut_iff hs] at h

/-- After each step a lexer stands at a place of its text. -/
theorem in_next (hl : l.place.In source) {r : EStateM.Result SyntaxError Lexer (Option Token)}
    (h : l.Steps r) :
    (∀ t next, r = .ok t next → next.place.In source) ∧
      ∀ e next, r = .error e next → next.place.In source ∧ Scan.Misses source l.IsCut e := by
  cases h with
  | stay => exact ⟨by rintro t next ⟨⟩; exact hl, nofun⟩
  | start => exact ⟨by rintro t next ⟨⟩; exact hl, nofun⟩
  | finish hs => exact ⟨by rintro t next ⟨⟩; exact hl.skip_ignored hs, nofun⟩
  | token hs ht => exact ⟨by rintro t next ⟨⟩; exact ((yields_token hl hs).ok ht).1, nofun⟩
  | error hs ht => exact ⟨nofun, by rintro e next ⟨⟩; exact (yields_token hl hs).error ht⟩

/-- The states that the lexer of a text can come to, asked for tokens again and again. -/
inductive Reached (source : Text) : Lexer → Prop
  | start : Reached source (ofText source)
  | token {l next : Lexer} {t : Option Token} (hl : Reached source l) (h : l.next = .ok t next) :
      Reached source next
  | error {l next : Lexer} {e : SyntaxError} (hl : Reached source l) (h : l.next = .error e next) :
      Reached source next

theorem Reached.in (h : Reached source l) : l.place.In source := by
  induction h with
  | start => exact Place.in_start source
  | token hl h ih => exact (in_next ih (steps_of_next h)).1 _ _ rfl
  | error hl h ih => exact ((in_next ih (steps_of_next h)).2 _ _ rfl).1

/-- The errors of a lexer. -/
theorem Reached.misses {e : SyntaxError} (hl : Reached source l) (h : l.next = .error e next) :
    Scan.Misses source l.IsCut e :=
  ((in_next hl.in (steps_of_next h)).2 _ _ rfl).2

/-- A string that ends within an escape sequence cannot be read. -/
theorem IsCut.exists_error (hl : Reached source l) (h : l.IsCut) :
    ∃ next, l.next = .error ⟨.nonTerminatedString, source.length + 1⟩ next := by
  cases hn : l.next with
  | error e next =>
    rcases hl.misses hn with ⟨-, rfl⟩ | ⟨hnot, -⟩
    · exact ⟨next, rfl⟩
    · exact absurd h hnot
  | ok t next =>
    cases steps_of_next hn with
    | stay => cases h.not_done
    | start => cases h.started
    | finish hs =>
      obtain ⟨-, t, ht, -⟩ := (isCut_iff hs).1 h
      cases ht
    | token hs ht => exact absurd h ((yields_token hl.in hs).ok ht).2.2.2

end Lexer

end GraphSchema
