import GraphSchema.Proofs.Token.Step

/-!
# The tokens of a lexer

Asked again and again, a lexer gives tokens until it is done or meets an error. A document has no
more tokens than it has code points, with two more for its ends.

## Main definitions

* `Lexer.Gives`, `Lexer.Delivers`: the tokens that a lexer gives until it is done.
* `Lexer.run`: these tokens, computed.

## Main statements

* `Lexer.Gives.unique`: the lexer determines them.
* `Lexer.Gives.length_le`: how many tokens a text has at most.
* `Lexer.exists_gives`: a lexer comes to an end.
* `Lexer.gives_iff_run`: what a lexer gives is what is computed.
-/

namespace GraphSchema

namespace Lexer

/-- Asked again and again, a lexer gives the tokens of a list, and then nothing more or an error. -/
inductive Gives : Lexer → List Token → Option SyntaxError → Prop
  | done {l : Lexer} (h : l.next = .ok none l) : Gives l [] none
  | fail {l next : Lexer} {e : SyntaxError} (h : l.next = .error e next) : Gives l [] (some e)
  | token {l next : Lexer} {t : Token} {ts : List Token} {e : Option SyntaxError}
      (h : l.next = .ok (some t) next) (rest : Gives next ts e) : Gives l (t :: ts) e

/-- The tokens that a lexer gives if it meets no error. -/
abbrev Delivers (l : Lexer) (ts : List Token) : Prop := l.Gives ts none

/-- The tokens, and the error if there is one, are determined by the lexer. -/
theorem Gives.unique {l : Lexer} {ts us : List Token} {e f : Option SyntaxError}
    (ht : l.Gives ts e) (hu : l.Gives us f) : ts = us ∧ e = f := by
  induction ht generalizing us with
  | done h =>
    cases hu with
    | done => exact ⟨rfl, rfl⟩
    | fail h' => rw [h] at h'; cases h'
    | token h' => rw [h] at h'; cases h'
  | fail h =>
    cases hu with
    | done h' => rw [h] at h'; cases h'
    | fail h' => rw [h] at h'; cases h'; exact ⟨rfl, rfl⟩
    | token h' => rw [h] at h'; cases h'
  | token h rest ih =>
    cases hu with
    | done h' => rw [h] at h'; cases h'
    | fail h' => rw [h] at h'; cases h'
    | token h' rest' =>
      rw [h] at h'
      cases h'
      obtain ⟨rfl, rfl⟩ := ih rest'
      exact ⟨rfl, rfl⟩

/-- How many tokens a lexer can still give: one for each code point ahead, and those for the ends
that have not been given. -/
def bound (l : Lexer) : Nat :=
  if l.done then 0 else l.place.rest.length + if l.started then 1 else 2

theorem bound_lt_of_next {l next : Lexer} {t : Token} (h : l.next = .ok (some t) next) :
    next.bound < l.bound := by
  cases steps_of_next h with
  | start => simp [bound]
  | finish hs => simp [bound]
  | token hs ht =>
    have hlt := Scan.takes_token _ _ _ _ _ (Place.rest_skip_ignored hs) ht
    simp only [Place.rest_skip, List.length_drop] at hlt
    simp only [bound, Bool.false_eq_true, if_false, if_true]
    omega

/-- A text has at most one token for each code point, and two for its ends. -/
theorem Gives.length_le {l : Lexer} {ts : List Token} {e : Option SyntaxError} (h : l.Gives ts e) :
    ts.length ≤ l.bound := by
  induction h with
  | done => simp
  | fail => simp
  | token h rest ih =>
    have := bound_lt_of_next h
    simp only [List.length_cons]
    omega

/-- A lexer that gives no token stays as it is. -/
theorem eq_of_next_eq_none {l next : Lexer} (h : l.next = .ok none next) : next = l := by
  cases steps_of_next h
  rfl

/-! ## Running a lexer -/

/-- The tokens that a lexer gives when it is asked at most `n` times, and the error that it meets if
there is one. -/
def run : Nat → Lexer → List Token × Option SyntaxError
  | 0, _ => ([], none)
  | n + 1, l =>
    match l.next with
    | .ok none _ => ([], none)
    | .ok (some t) next =>
      let (ts, e) := run n next
      (t :: ts, e)
    | .error e _ => ([], some e)

/-- A lexer that is asked often enough gives all of its tokens. -/
theorem gives_run {n : Nat} {l : Lexer} (h : l.bound < n) : l.Gives (l.run n).1 (l.run n).2 := by
  induction n generalizing l with
  | zero => exact absurd h (Nat.not_lt_zero _)
  | succ n ih =>
    rw [run]
    cases hn : l.next with
    | error e next => exact .fail hn
    | ok t next =>
      cases t with
      | none =>
        obtain rfl := eq_of_next_eq_none hn
        exact .done hn
      | some t =>
        have hlt : next.bound < n := Nat.lt_of_lt_of_le (bound_lt_of_next hn) (Nat.le_of_lt_succ h)
        exact .token hn (ih hlt)

/-- Every lexer comes to an end. -/
theorem exists_gives (l : Lexer) : ∃ ts e, l.Gives ts e :=
  ⟨_, _, gives_run (Nat.lt_succ_self l.bound)⟩

theorem gives_iff_run {l : Lexer} {ts : List Token} {e : Option SyntaxError} :
    l.Gives ts e ↔ l.run (l.bound + 1) = (ts, e) := by
  have hrun := gives_run (Nat.lt_succ_self l.bound)
  constructor
  · intro h
    obtain ⟨hts, he⟩ := hrun.unique h
    exact Prod.ext hts he
  · intro h
    rwa [h] at hrun

instance (l : Lexer) (ts : List Token) (e : Option SyntaxError) : Decidable (l.Gives ts e) :=
  decidable_of_iff _ gives_iff_run.symm

end Lexer

end GraphSchema
