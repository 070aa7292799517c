import GraphSchema.Proofs.Token.Place

/-!
# Steps of the lexer

Asked for a token, a lexer has nothing more to give, gives one of the tokens for the ends of its
text, or reads a token behind what is ignored.

## Main definitions

* `Lexer.Steps`: what a lexer does when it is asked for a token.

## Main statements

* `Lexer.steps_next`: these are the steps.
* `Lexer.steps_of_next`: so it is with each result.
-/

namespace GraphSchema

namespace Place

variable {p : Place} {comments : List Text} {ignored left : Text}

/-- The place behind what is ignored. -/
theorem skip_ignored (h : Scan.splitIgnored p.rest = (comments, ignored, left)) :
    p.skip ignored.length = ⟨p.position + ignored.length, left⟩ := by
  have happend := Scan.splitIgnored_append p.rest
  rw [h] at happend
  rw [Place.skip, ← happend, List.drop_left]

theorem rest_skip_ignored (h : Scan.splitIgnored p.rest = (comments, ignored, left)) :
    (p.skip ignored.length).rest = left := by
  rw [skip_ignored h]

theorem In.skip_ignored {source : Text} (hp : p.In source)
    (h : Scan.splitIgnored p.rest = (comments, ignored, left)) :
    (p.skip ignored.length).In source := by
  refine hp.skip ?_
  have happend := Scan.splitIgnored_append p.rest
  rw [h] at happend
  rw [← happend]
  simp

end Place

namespace Lexer

open Scan (splitIgnored)

/-- What a lexer does when it is asked for a token. -/
inductive Steps : Lexer → EStateM.Result SyntaxError Lexer (Option Token) → Prop
  | stay {p : Place} {started : Bool} : Steps ⟨p, started, true⟩ (.ok none ⟨p, started, true⟩)
  | start {p : Place} :
      Steps ⟨p, false, false⟩ (.ok (some (.placed .start 0 0 [])) ⟨p, true, false⟩)
  | finish {p : Place} {comments : List Text} {ignored : Text}
      (hs : splitIgnored p.rest = (comments, ignored, [])) :
      Steps ⟨p, true, false⟩
        (.ok (some { Token.placed .finish (p.position + ignored.length)
            (p.position + ignored.length) [] with comments, ignored })
          ⟨p.skip ignored.length, true, true⟩)
  | token {p q : Place} {comments : List Text} {ignored left : Text} {c : CodePoint} {t : Token}
      (hs : splitIgnored p.rest = (comments, ignored, c :: left))
      (ht : Scan.token c (p.skip ignored.length) = .ok t q) :
      Steps ⟨p, true, false⟩ (.ok (some { t with comments, ignored }) ⟨q, true, false⟩)
  | error {p q : Place} {comments : List Text} {ignored left : Text} {c : CodePoint}
      {e : SyntaxError} (hs : splitIgnored p.rest = (comments, ignored, c :: left))
      (ht : Scan.token c (p.skip ignored.length) = .error e q) :
      Steps ⟨p, true, false⟩ (.error e ⟨q, true, false⟩)

/-- A lexer that was started and is not done goes on behind what is ignored. -/
theorem next_eq_of_started {p : Place} {comments : List Text} {ignored left : Text}
    {r : EStateM.Result SyntaxError Lexer (Option Token)}
    (hs : splitIgnored p.rest = (comments, ignored, left))
    (hnil : left = [] → r = .ok (some { Token.placed .finish (p.position + ignored.length)
        (p.position + ignored.length) [] with comments, ignored })
      ⟨⟨p.position + ignored.length, left⟩, true, true⟩)
    (hcons : ∀ c rest, left = c :: rest →
      r = (do
        let token ← scan (Scan.token c)
        return some { token with comments, ignored } : EStateM SyntaxError Lexer (Option Token))
        ⟨⟨p.position + ignored.length, left⟩, true, false⟩) :
    next ⟨p, true, false⟩ = r := by
  have hget : (get : EStateM SyntaxError Lexer Lexer) ⟨p, true, false⟩ =
      .ok ⟨p, true, false⟩ ⟨p, true, false⟩ := rfl
  have hignored : scan Scan.ignored ⟨p, true, false⟩ =
      .ok (comments, ignored) ⟨⟨p.position + ignored.length, left⟩, true, false⟩ := by
    change EStateM.Result.ok ((splitIgnored p.rest).1, (splitIgnored p.rest).2.1)
      (⟨⟨p.position + (splitIgnored p.rest).2.1.length, (splitIgnored p.rest).2.2⟩, true, false⟩ :
        Lexer) = _
    rw [hs]
  unfold next
  rw [bind_of_ok hget]
  simp only [Bool.false_eq_true, if_false, if_true]
  rw [bind_of_ok hignored]
  cases left with
  | nil => exact (hnil rfl).symm
  | cons c rest => exact (hcons c rest rfl).symm

theorem steps_next (l : Lexer) : l.Steps l.next := by
  obtain ⟨p, started, done⟩ := l
  cases done with
  | true => exact .stay
  | false =>
    cases started with
    | false => exact .start
    | true =>
      obtain ⟨comments, ignored, left, hs⟩ : ∃ comments ignored left,
        splitIgnored p.rest = (comments, ignored, left) := ⟨_, _, _, rfl⟩
      have hplace := Place.skip_ignored hs
      cases left with
      | nil =>
        rw [next_eq_of_started hs (fun _ => rfl) (by simp), ← hplace]
        exact .finish hs
      | cons c left =>
        have hnext := next_eq_of_started hs (by simp) fun d rest h => by cases h; rfl
        rw [hnext, ← hplace]
        cases ht : Scan.token c (p.skip ignored.length) with
        | ok t q =>
          rw [bind_of_ok (a := t) (t := ⟨q, true, false⟩) (by simp only [scan, ht])]
          exact .token hs ht
        | error e q =>
          rw [bind_of_error (e := e) (t := ⟨q, true, false⟩) (by simp only [scan, ht])]
          exact .error hs ht

theorem steps_of_next {l : Lexer} {r : EStateM.Result SyntaxError Lexer (Option Token)}
    (h : l.next = r) : l.Steps r := h ▸ steps_next l

end Lexer

end GraphSchema
