import GraphSchema.Proofs.Token.Delivery
import GraphSchema.Proofs.Token.Reached

/-!
# Lexing loses nothing

The tokens of a text that is read without an error, each with what is ignored in front of it, make
up the text again. What is ignored consists of ignored characters and comments, and the comments of
a token are those in the text that is ignored in front of it.

## Main definitions

* `Token.textIn`: the part of a text that a token takes up.
* `Gap`: a text between tokens, with the comments in it.

## Main statements

* `Scan.gap_splitIgnored`: what is ignored in front of a token.
* `Lexer.Gives.covers`: the tokens from a place on.
* `Lexer.Delivers.lossless`: the tokens of a text.
-/

namespace GraphSchema

/-- The part of a text that a token takes up. -/
def Token.textIn (t : Token) (source : Text) : Text := (source.drop t.start).take (t.stop - t.start)

/-- A code point that ends a line. -/
def IsLineEnd (c : CodePoint) : Prop := c = CodePoint.ofChar '\n' ∨ c = CodePoint.ofChar '\r'

instance : DecidablePred IsLineEnd := fun c =>
  inferInstanceAs (Decidable (c = CodePoint.ofChar '\n' ∨ c = CodePoint.ofChar '\r'))

/-- A text between tokens with the comments in it: ignored characters, and comments from their marks
up to the end of their lines. If it is the `last` text between tokens, its end may also end a
comment. -/
inductive Gap (last : Prop) : Text → List Text → Prop
  | nil : Gap last [] []
  | ignored {c : CodePoint} {t : Text} {comments : List Text} (hc : Scan.isIgnored c)
      (h : Gap last t comments) : Gap last (c :: t) comments
  | comment {body t : Text} {comments : List Text} (hbody : ∀ c ∈ body, ¬IsLineEnd c)
      (hend : ∀ c ∈ t.head?, IsLineEnd c) (hlast : t = [] → last) (h : Gap last t comments) :
      Gap last (CodePoint.ofChar '#' :: (body ++ t)) (body :: comments)

namespace Gap

variable {last : Prop}

theorem congr {last' : Prop} {t : Text} {comments : List Text} (h : Gap last t comments)
    (hlast : last ↔ last') : Gap last' t comments := propext hlast ▸ h

theorem not_isIgnored_mark : ¬Scan.isIgnored (CodePoint.ofChar '#') := by decide

/-- How a text between tokens starts. -/
theorem head {c : CodePoint} {t : Text} {comments : List Text} (h : Gap last (c :: t) comments) :
    Scan.isIgnored c ∨ c = '#' := by
  cases h with
  | ignored hc _ => exact .inl hc
  | comment _ _ _ _ => exact .inr rfl

/-- A comment is the text up to the end of its line. -/
theorem takeWhile_append {body t : Text} (hbody : ∀ c ∈ body, ¬IsLineEnd c)
    (hend : ∀ c ∈ t.head?, IsLineEnd c) : (body ++ t).takeWhile (¬IsLineEnd ·) = body := by
  rw [List.takeWhile_append_of_pos (by simpa using hbody)]
  cases t with
  | nil => simp
  | cons c t => simp [hend c rfl]

/-- The comments are determined by the text. -/
theorem unique {t u : Text} {comments comments' : List Text} (h : Gap last t comments)
    (h' : Gap last u comments') (heq : t = u) : comments = comments' := by
  induction h generalizing u comments' with
  | nil =>
    cases h' with
    | nil => rfl
    | ignored _ _ => cases heq
    | comment _ _ _ _ => cases heq
  | ignored hc _ ih =>
    cases h' with
    | nil => cases heq
    | ignored _ h' => exact ih h' (List.cons.inj heq).2
    | comment _ _ _ _ =>
      cases heq
      exact absurd hc not_isIgnored_mark
  | comment hbody hend _ _ ih =>
    cases h' with
    | nil => cases heq
    | ignored hc _ =>
      cases heq
      exact absurd hc not_isIgnored_mark
    | comment hbody' hend' _ h' =>
      have heq := (List.cons.inj heq).2
      obtain rfl : _ = _ :=
        (takeWhile_append hbody hend).symm.trans (heq ▸ takeWhile_append hbody' hend')
      rw [ih h' (List.append_cancel_left heq)]

end Gap

namespace Scan

theorem isLineEnd_of_isIgnored {c : CodePoint} (hc : isIgnored c) (h : ¬isVisible c) :
    IsLineEnd c := by
  simp only [isIgnored, Bool.or_eq_true, decide_eq_true_eq] at hc
  rcases hc with ((((rfl | rfl) | rfl) | rfl) | rfl) | rfl
  · exact .inl rfl
  · exact .inr rfl
  all_goals exact absurd (by decide) h

theorem not_isLineEnd {c : CodePoint} (h : isVisible c) : ¬IsLineEnd c := by
  rintro (rfl | rfl) <;> exact absurd h (by decide)

/-- What is ignored in front of a token, and at the end of a text. -/
theorem gap_splitIgnored {t left : Text} {comments : List Text} {ignored : Text}
    (h : splitIgnored t = (comments, ignored, left)) (hleft : ∀ c ∈ left.head?, isVisible c) :
    Gap (left = []) ignored comments := by
  fun_induction splitIgnored t generalizing comments ignored left with
  | case1 =>
    cases h
    exact .nil
  | case2 c rest hc comments' ignored' left' heq ih =>
    cases h
    exact .ignored hc (ih heq hleft)
  | case3 rest comment comments' ignored' left' heq hc =>
    rename_i ih
    cases h
    -- The comment ends where a code point is not visible. If this is ignored, it ends the line; a
    -- token does not start with it, so otherwise the comment ends with the text.
    have hrest := ih heq hleft
    have happend := splitIgnored_append (rest.dropWhile isVisible)
    rw [heq] at happend
    have hstop : ∀ c ∈ (rest.dropWhile isVisible).head?, ¬isVisible c :=
      fun _ => not_of_mem_head?_dropWhile
    refine .comment (fun c hc => not_isLineEnd ?_) ?_ ?_ hrest
    · exact List.all_eq_true.1 List.all_takeWhile c hc
    · intro c hc
      cases ignored' with
      | nil => cases hc
      | cons d ignored' =>
        cases hc
        have hnot := hstop c (by rw [← happend]; rfl)
        rcases hrest.head with hi | rfl
        · exact isLineEnd_of_isIgnored hi hnot
        · exact absurd (by decide) hnot
    · rintro rfl
      cases left' with
      | nil => rfl
      | cons c left' => exact absurd (hleft c rfl) (hstop c (by rw [← happend]; rfl))
  | case4 =>
    cases h
    exact .nil

end Scan

namespace Lexer

open Scan (splitIgnored)

variable {source : Text} {i : Nat} {ts : List Token} {p : Place}

/-- The tokens from the offset `i` on: those of a text and the one for its end. With what is ignored
they make up the text from this offset on. -/
structure Covers (source : Text) (i : Nat) (ts : List Token) : Prop where
  shape : ∃ inner last, ts = inner ++ [last] ∧
    (∀ t ∈ inner, t.start < t.stop ∧ t.kind ≠ .start ∧ t.kind ≠ .finish) ∧
    last.kind = .finish ∧ last.start = source.length ∧ last.stop = source.length
  whole : (ts.flatMap fun t => t.ignored ++ t.textIn source) = source.drop i
  gap : ∀ t ∈ ts, Gap (t.kind = .finish) t.ignored t.comments

/-- The token for the end of a text. -/
theorem covers_finish (hp : p.In source) {comments : List Text} {ignored : Text}
    (hs : splitIgnored p.rest = (comments, ignored, [])) :
    Covers source p.position [{ Token.placed .finish (p.position + ignored.length)
      (p.position + ignored.length) [] with comments, ignored }] := by
  have happend := Scan.splitIgnored_append p.rest
  rw [hs, List.append_nil] at happend
  have hend : p.position + ignored.length = source.length := by
    rw [show ignored = p.rest from happend]
    exact hp.position_add_length
  refine ⟨⟨[], _, rfl, by simp, rfl, hend, hend⟩, ?_, ?_⟩
  · simp [Token.textIn, Token.placed, ← hp.rest, ← happend]
  · intro t ht
    rw [List.mem_singleton.1 ht]
    exact (Scan.gap_splitIgnored hs (by simp)).congr ⟨fun _ => rfl, fun _ => rfl⟩

/-- A token that is read, and those after it. -/
theorem covers_cons (hp : p.In source) {q : Place} {comments : List Text} {ignored left : Text}
    {c : CodePoint} {t : Token} (hs : splitIgnored p.rest = (comments, ignored, c :: left))
    (ht : Scan.token c (p.skip ignored.length) = .ok t q) (h : Covers source q.position ts) :
    Covers source p.position ({ t with comments, ignored } :: ts) := by
  obtain ⟨hq, hspans, hvisible, -⟩ := (yields_token hp hs).ok ht
  have hstart := hspans.start
  have hstop := hspans.stop
  have hrest := Place.rest_skip_ignored hs
  have hless := Scan.takes_token c _ left _ _ hrest ht
  have hskip := hp.skip_ignored hs
  have hlt : t.start < t.stop := by
    have := hskip.position_add_length
    have := hq.position_add_length
    omega
  obtain ⟨inner, last, rfl, hinner, hlast⟩ := h.shape
  refine ⟨⟨_ :: inner, last, rfl, ?_, hlast⟩, ?_, ?_⟩
  · exact List.forall_mem_cons.2 ⟨⟨hlt, hspans.inner⟩, hinner⟩
  · -- What is ignored, the token, and the text that the tokens after it make up.
    have happend := Scan.splitIgnored_append p.rest
    rw [hs, hp.rest] at happend
    have hleft : c :: left = source.drop t.start := by rw [← hrest, hskip.rest, hstart]
    have hdrop : source.drop t.stop = (source.drop t.start).drop (t.stop - t.start) := by
      rw [List.drop_drop, Nat.add_sub_cancel' (Nat.le_of_lt hlt)]
    rw [List.flatMap_cons, h.whole, ← happend, ← hstop, hdrop, List.append_assoc, Token.textIn]
    simp only [List.take_append_drop, hleft]
  · refine List.forall_mem_cons.2 ⟨?_, h.gap⟩
    exact (Scan.gap_splitIgnored hs (by simpa using hvisible)).congr
      ⟨nofun, fun h => absurd h hspans.inner.2⟩

/-- The tokens of a lexer that was started. -/
theorem Gives.covers (h : Gives ⟨p, true, false⟩ ts none) (hp : p.In source) :
    Covers source p.position ts := by
  -- By induction on the tokens; the lexer stands at another place for each of them.
  generalize hl : (⟨p, true, false⟩ : Lexer) = l at h
  generalize he : (none : Option SyntaxError) = e at h
  induction h generalizing p with
  | done h =>
    subst hl
    cases steps_of_next h
  | fail h => cases he
  | token h rest ih =>
    subst hl
    cases steps_of_next h with
    | finish hs =>
      obtain ⟨rfl, -⟩ := rest.unique (.done rfl)
      exact covers_finish hp hs
    | token hs ht => exact covers_cons hp hs ht (ih ((yields_token hp hs).ok ht).1 rfl he)

/-- Lexing loses nothing: the tokens of a text are one for its start, those that take up a part of
it, and one for its end; with what is ignored in front of them they make up the text, and their
comments are those that are ignored. -/
theorem Delivers.lossless (h : (ofText source).Delivers ts) :
    (∃ inner last, ts = .placed .start 0 0 [] :: (inner ++ [last]) ∧
      (∀ t ∈ inner, t.start < t.stop ∧ t.kind ≠ .start ∧ t.kind ≠ .finish) ∧
      last.kind = .finish ∧ last.start = source.length ∧ last.stop = source.length) ∧
    ts.length ≤ source.length + 2 ∧
    (ts.flatMap fun t => t.ignored ++ t.textIn source) = source ∧
    ∀ t ∈ ts, ∀ comments, Gap (t.kind = .finish) t.ignored comments ↔ comments = t.comments := by
  have hlength := h.length_le
  cases h with
  | done h => cases h
  | token h rest =>
    cases h
    have hcovers := Gives.covers rest (Place.in_start source)
    obtain ⟨inner, last, rfl, hinner⟩ := hcovers.shape
    refine ⟨⟨inner, last, rfl, hinner⟩, hlength, ?_, ?_⟩
    · exact hcovers.whole
    · have hgap : ∀ t ∈ Token.placed .start 0 0 [] :: (inner ++ [last]),
          Gap (t.kind = .finish) t.ignored t.comments := List.forall_mem_cons.2 ⟨.nil, hcovers.gap⟩
      intro t ht comments
      constructor
      · exact fun hc => hc.unique (hgap t ht) rfl
      · rintro rfl
        exact hgap t ht

/-- The tokens of a text with a name between two comments. -/
def commentedTokens : List Token :=
  [.placed .start 0 0 [],
   { Token.placed .name 3 4 "x" with comments := ["a"], ignored := "#a\n" },
   { Token.placed .finish 7 7 [] with comments := ["b"], ignored := " #b" }]

/-- A text with comments. -/
theorem lossless_commented :
    (ofText "#a\nx #b").Delivers commentedTokens ∧
      (commentedTokens.flatMap fun t => t.ignored ++ t.textIn "#a\nx #b") = "#a\nx #b" ∧
      ∀ t ∈ commentedTokens, ∀ comments,
        Gap (t.kind = .finish) t.ignored comments ↔ comments = t.comments := by
  have h : (ofText "#a\nx #b").Delivers commentedTokens := by decide +kernel
  obtain ⟨-, -, hwhole, hgap⟩ := Delivers.lossless h
  exact ⟨h, hwhole, hgap⟩

end Lexer

end GraphSchema
