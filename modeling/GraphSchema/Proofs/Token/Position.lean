import GraphSchema.Proofs.SyntaxError
import GraphSchema.Proofs.Source.Excerpt
import GraphSchema.Proofs.Token.Character

/-!
# Where errors about a code point are reported

A lexer that fails because of a code point has met this code point at one index of its text: there
is the same error whatever follows, and none about a code point if the text ends in front of it. In
strings, in block strings and in numbers, and where no token starts with a visible code point, the
error is reported there, and the caret of its view stands below the code point. In place of a dot,
and where a token would start with a control, it is reported one code point further on.

## Main definitions

* `Lexer.onText`: the same lexer over another text.
* `Lexer.Meets`: a lexer meets the code point at an index of its text.
* `Lexer.ReportsBehind`: the code point is reported one too far.

## Main statements

* `Lexer.Meets.unique`: only one code point is met.
* `Lexer.Reached.exists_meets`: an error about a code point is reported at it or right behind it.
* `Lexer.Reached.reports_character`: the same with the caret of the view.
-/

namespace GraphSchema

namespace Scan

/-- A comment goes on up to what is not visible. -/
theorem splitIgnored_comment {body t ignored left : Text} {comments : List Text}
    (hbody : ∀ c ∈ body, isVisible c) (hstop : ∀ c ∈ t.head?, ¬isVisible c)
    (ht : splitIgnored t = (comments, ignored, left)) :
    splitIgnored (CodePoint.ofChar '#' :: (body ++ t)) =
      (body :: comments, CodePoint.ofChar '#' :: (body ++ ignored), left) := by
  have htake : (body ++ t).takeWhile isVisible = body := takeWhile_append_of_stop hbody hstop
  have hdrop : (body ++ t).dropWhile isVisible = t := by
    refine (List.append_right_inj body).1 ?_
    conv => lhs; arg 1; rw [← htake]
    exact List.takeWhile_append_dropWhile
  rw [splitIgnored, if_neg (by decide), if_pos rfl, htake, hdrop, ht]
  rfl

/-- What is ignored in front of a text is also ignored in front of another one that begins in the
same way, and at the end. -/
theorem splitIgnored_alike {t left v ignored : Text} {comments : List Text}
    (h : splitIgnored t = (comments, ignored, left)) (hv : v = [] ∨ v.head? = left.head?) :
    splitIgnored (ignored ++ v) = (comments, ignored, v) := by
  fun_induction splitIgnored t generalizing comments ignored left with
  | case1 =>
    cases h
    have hnil : v = [] := hv.elim id fun h => by simpa using h
    rw [hnil, List.append_nil, splitIgnored]
  | case2 c rest hc comments' ignored' left' heq ih =>
    cases h
    rw [List.cons_append, splitIgnored, if_pos hc, ih heq hv]
  | case3 rest comment comments' ignored' left' heq hc =>
    rename_i ih
    cases h
    have happend := splitIgnored_append (rest.dropWhile isVisible)
    simp only [heq] at happend
    have hstop : ∀ c ∈ (rest.dropWhile isVisible).head?, ¬isVisible c :=
      fun _ => not_of_mem_head?_dropWhile
    rw [← happend] at hstop
    rw [List.cons_append, List.cons_append, List.append_assoc]
    refine splitIgnored_comment (List.all_eq_true.1 List.all_takeWhile) (fun c hc => ?_) (ih heq hv)
    cases ignored' with
    | cons d ignored' => exact hstop c hc
    | nil =>
      rcases hv with rfl | hv
      · cases hc
      · exact hstop c (hv ▸ hc)
  | case4 c rest hc hmark =>
    cases h
    rcases hv with rfl | hv
    · rw [List.append_nil, splitIgnored]
    · obtain ⟨v, rfl⟩ := List.head?_eq_some_iff.1 hv
      rw [List.nil_append, splitIgnored, if_neg hc, if_neg hmark]

end Scan

namespace Lexer

open Scan (splitIgnored)
open SyntaxError (Cause)

variable {source : Text} {l next : Lexer} {e : SyntaxError} {i j : Nat} {c : CodePoint}

/-- The same lexer over another text. -/
def onText (l : Lexer) (text : Text) : Lexer :=
  { l with place := ⟨l.place.position, text.drop l.place.position⟩ }

/-- Asked for a token, the lexer meets the code point at index `i` and fails with `e`. It does so
whatever follows this code point, and without it there is no error about a code point. -/
structure Meets (source : Text) (l : Lexer) (e : SyntaxError) (i : Nat) : Prop where
  lt : i < source.length
  met : ∀ u, ∃ next, (l.onText (source.take (i + 1) ++ u)).next = .error e next
  spared : ∀ e' next, (l.onText (source.take i)).next = .error e' next → ¬e'.AboutCharacter

/-- Where the next token starts, or would start. -/
def tokenStart (l : Lexer) : Nat := l.place.position + (splitIgnored l.place.rest).2.1.length

/-- The code point `c` at index `i` is reported one code point behind it: it stands in the place of
a dot, or it is a control in the place of a token. -/
def ReportsBehind (l : Lexer) (cause : Cause) (c : CodePoint) (i : Nat) : Prop :=
  cause = .expectedDot c ∨ cause = .invalidCharacter c ∧ i = l.tokenStart

instance (l : Lexer) (cause : Cause) (c : CodePoint) (i : Nat) :
    Decidable (l.ReportsBehind cause c i) := inferInstanceAs (Decidable (_ ∨ _))

/-- Only one code point is met. -/
theorem Meets.unique (hi : l.Meets source e i) (hj : l.Meets source e j) (hc : e.AboutCharacter) :
    i = j := by
  have hle : ∀ {i j}, l.Meets source e i → l.Meets source e j → j ≤ i := by
    intro i j hi hj
    refine Nat.le_of_not_lt fun hlt => ?_
    obtain ⟨next, hnext⟩ := hi.met ((source.take j).drop (i + 1))
    have htake : source.take (i + 1) = (source.take j).take (i + 1) := by
      rw [List.take_take, Nat.min_eq_left hlt]
    rw [htake, List.take_append_drop] at hnext
    exact hj.spared e next hnext hc
  exact Nat.le_antisymm (hle hj hi) (hle hi hj)

/-- An error is met behind what is ignored. -/
theorem next_eq_error {p q : Place} {comments : List Text} {ignored left : Text}
    (hs : splitIgnored p.rest = (comments, ignored, c :: left))
    (ht : Scan.token c (p.skip ignored.length) = .error e q) :
    Lexer.next ⟨p, true, false⟩ = .error e ⟨q, true, false⟩ := by
  cases hn : Lexer.next ⟨p, true, false⟩ with
  | ok t l =>
    cases steps_of_next hn with
    | finish hs' => simp [hs] at hs'
    | token hs' ht' =>
      rw [hs'] at hs
      cases hs
      rw [ht] at ht'
      cases ht'
  | error e' l =>
    cases steps_of_next hn with
    | error hs' ht' =>
      rw [hs'] at hs
      cases hs
      rw [ht] at ht'
      cases ht'
      rfl

/-- What is in front of a lexer over another text that begins in the same way. -/
theorem onText_eq {p : Place} (hp : p.In source) {w r u : Text} (hrest : p.rest = w ++ r) :
    onText ⟨p, true, false⟩ (source.take (p.position + w.length) ++ u) =
      ⟨⟨p.position, w ++ u⟩, true, false⟩ := by
  have hdrop : (source.take (p.position + w.length)).drop p.position = w := by
    rw [List.drop_take, ← hp.rest, hrest, Nat.add_sub_cancel_left, List.take_left]
  have hlength : p.position ≤ (source.take (p.position + w.length)).length := by
    have := hp.le
    rw [List.length_take]
    omega
  simp only [onText, List.drop_append_of_le_length hlength, hdrop]

theorem onText_take_eq {p : Place} (hp : p.In source) {w r : Text} (hrest : p.rest = w ++ r) :
    onText ⟨p, true, false⟩ (source.take (p.position + w.length)) =
      ⟨⟨p.position, w⟩, true, false⟩ := by
  simpa using onText_eq hp hrest (u := [])

/-- What is forced in a token is met behind what is ignored in front of it. -/
theorem meets_of_forces {p : Place} {comments : List Text} {ignored left s r : Text} {d : CodePoint}
    {k : Nat} {cause : Cause} (hin : p.In source)
    (hs : splitIgnored p.rest = (comments, ignored, c :: left)) (hsplit : c :: left = s ++ d :: r)
    (h : Scan.Forces k cause (fun _ => Scan.token c) s d) :
    Meets source ⟨p, true, false⟩ ⟨cause, (p.position + ignored.length + s.length + k : Nat)⟩
        (p.position + (ignored ++ s).length) ∧
      source[p.position + (ignored ++ s).length]? = some d := by
  have hrest : p.rest = (ignored ++ s) ++ d :: r := by
    rw [List.append_assoc, ← hsplit, ← Scan.splitIgnored_append p.rest, hs]
  have hget : source[p.position + (ignored ++ s).length]? = some d := by
    rw [← List.getElem?_drop, ← hin.rest, hrest, List.getElem?_append_right (Nat.le_refl _)]
    simp
  -- Whatever follows, `c` is the code point behind what is ignored.
  have hhead : ∀ u, (s ++ d :: u).head? = some c := fun u => by
    cases s <;> exact congrArg some (List.cons.inj hsplit).1.symm
  refine ⟨⟨(List.getElem?_eq_some_iff.1 hget).1, fun u => ?_, fun e' next he => ?_⟩, hget⟩
  · obtain ⟨v, hv⟩ := List.head?_eq_some_iff.1 (hhead u)
    have htext : onText ⟨p, true, false⟩
        (source.take (p.position + (ignored ++ s).length + 1) ++ u) =
        ⟨⟨p.position, ignored ++ (s ++ d :: u)⟩, true, false⟩ := by
      simpa [Nat.add_assoc] using
        onText_eq hin (w := ignored ++ s ++ [d]) (r := r) (u := u) (by simp [hrest])
    obtain ⟨q, hq⟩ := h.met (s ++ d :: u) (p.position + ignored.length) u (by simp)
    have halike := Scan.splitIgnored_alike hs (v := s ++ d :: u) (.inr (hhead u))
    rw [hv] at halike hq htext
    have hplace := Place.skip_ignored (p := ⟨p.position, ignored ++ c :: v⟩) halike
    exact ⟨_, htext ▸ next_eq_error halike (hplace ▸ hq)⟩
  · rw [onText_take_eq hin hrest] at he
    have halike : splitIgnored (ignored ++ s) = (comments, ignored, s) := by
      refine Scan.splitIgnored_alike hs ?_
      cases s with
      | nil => exact .inl rfl
      | cons b s => exact .inr (hhead [])
    cases steps_of_next he with
    | error hs' ht =>
      rw [Place.skip_ignored hs'] at ht
      rw [halike] at hs'
      cases hs'
      obtain rfl : c = _ := (List.cons.inj hsplit).1
      exact (h.spared (List.cons_ne_nil _ _) _ _ (Nat.le_refl _)).error ht

/-- A lexer that fails because of a code point meets it, and reports it there or one code point
behind it. -/
theorem Reached.exists_meets (hl : Reached source l) (h : l.next = .error e next)
    (hc : e.AboutCharacter) : ∃ i c, l.Meets source e i ∧ source[i]? = some c ∧
      (e.cause = .invalidCharacter c ∨ e.cause = .unexpectedCharacter c ∨
        e.cause = .expectedDot c) ∧
      e.position = (if l.ReportsBehind e.cause c i then i + 1 else i : Nat) := by
  have hin := hl.in
  cases steps_of_next h with
  | error hs ht =>
    rename_i p q comments ignored left c
    rw [Place.skip_ignored hs] at ht
    obtain ⟨s, d, r, k, hsplit, hshift, hpos, hforces⟩ := Scan.blamesToken_token c ht hc
    obtain ⟨hmeets, hget⟩ := meets_of_forces hin hs hsplit hforces
    obtain ⟨cause, position⟩ := e
    obtain rfl : position = _ := hpos
    have hstart : tokenStart ⟨p, true, false⟩ = p.position + ignored.length := by
      rw [tokenStart, hs]
    refine ⟨_, d, hmeets, hget, by cases hshift <;> simp, ?_⟩
    rw [List.length_append, ← Nat.add_assoc]
    cases hshift with
    | dot => rw [if_pos (.inl rfl)]
    | first hnil => rw [if_pos (.inr ⟨rfl, by simp [hstart, hnil]⟩)]
    | inner hne =>
      have := List.length_pos_iff.2 hne
      rw [if_neg (by simp only [ReportsBehind, hstart, reduceCtorEq, true_and, false_or]; omega)]
      rfl
    | unexpected =>
      rw [if_neg (by simp [ReportsBehind])]
      rfl

/-- A lexer that fails because of a code point `c` has met it at one index. In place of a dot, and
for a control in place of a token, the error is reported one code point behind it, and the caret
stands to the right of it. All other errors are reported at the index, and the caret stands below
the code point. -/
theorem Reached.reports_character (hl : Reached source l) (h : l.next = .error e next)
    (hc : e.AboutCharacter) :
    ∃ i c, l.Meets source e i ∧ (∀ j, l.Meets source e j → j = i) ∧ source[i]? = some c ∧
      (e.cause = .invalidCharacter c ∨ e.cause = .unexpectedCharacter c ∨
        e.cause = .expectedDot c) ∧
      ∃ view shown n, e.highlighted? source = some view ∧ Source.Points view shown n ∧
        (¬l.ReportsBehind e.cause c i → e.position = i ∧ Source.InColumn shown n c) ∧
        (l.ReportsBehind e.cause c i →
          e.position = i + 1 ∧ (¬Source.IsBreak c → ∃ m, n = m + 1 ∧ shown[m]? = some c)) := by
  obtain ⟨i, c, hmeets, hget, hcause, hpos⟩ := hl.exists_meets h hc
  have hcontext : 0 ≤ SyntaxError.context := by decide
  refine ⟨i, c, hmeets, fun j hj => hj.unique hmeets hc, hget, hcause, ?_⟩
  have hview : ∀ {view shown n}, Source.excerpt? source e.position SyntaxError.context = some view →
      Source.Points view shown n → e.highlighted? source = some (e.message ++ " " ++ view) ∧
        Source.Points (e.message ++ " " ++ view) shown n := fun hv hp =>
    ⟨by rw [SyntaxError.highlighted?, hv]; rfl, hp.append _⟩
  by_cases hbehind : l.ReportsBehind e.cause c i
  · rw [if_pos hbehind] at hpos
    obtain ⟨view, shown, n, hv, hp, hcaret⟩ := Source.exists_excerpt_behind hget hcontext
    obtain ⟨hhighlighted, hpoints⟩ := hview (hpos ▸ hv) hp
    exact ⟨_, shown, n, hhighlighted, hpoints, fun hnot => absurd hbehind hnot,
      fun _ => ⟨hpos, hcaret⟩⟩
  · rw [if_neg hbehind] at hpos
    obtain ⟨view, shown, n, hv, hp, hcaret⟩ := Source.exists_excerpt_at hget hcontext
    obtain ⟨hhighlighted, hpoints⟩ := hview (hpos ▸ hv) hp
    exact ⟨_, shown, n, hhighlighted, hpoints, fun _ => ⟨hpos, hcaret⟩,
      fun hnot => absurd hnot hbehind⟩

/-- A control in place of the first token is met at index 0 and reported at index 1. -/
theorem Reached.reports_character_bell :
    ∃ e next, Reached "\x07" (opened "\x07") ∧ (opened "\x07").next = .error e next ∧
      e.AboutCharacter ∧ (opened "\x07").Meets "\x07" e 0 ∧ e.position = 1 := by
  have hnext : (opened "\x07").next =
      .error ⟨.invalidCharacter (CodePoint.ofChar '\x07'), 1⟩ ⟨⟨1, []⟩, true, false⟩ := by
    with_unfolding_all rfl
  obtain ⟨i, c, hmeets, -⟩ := Reached.reports_character reached_opened hnext (.inl rfl)
  obtain rfl : i = 0 := Nat.lt_one_iff.1 hmeets.lt
  exact ⟨_, _, reached_opened, hnext, .inl rfl, hmeets, rfl⟩

end Lexer

end GraphSchema
