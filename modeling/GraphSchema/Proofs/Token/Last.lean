import GraphSchema.Proofs.Token.Delivery
import GraphSchema.Proofs.Token.Number

/-!
# The last token of a text

No part of a text reads as the token for its end, so that nothing follows this token.

## Main statements

* `Scan.inner_token`: no token that is read from a text is the one for its end.
* `Lexer.Gives.eq_nil_of_finish`: nothing follows the token for the end.
-/

namespace GraphSchema

namespace Scan

/-- The tokens that are read are not the one for the end of a text. -/
def Inner (x : Scan Token) : Prop := ∀ p t q, x p = .ok t q → t.kind ≠ .finish

/-- No part of a text reads as the token for its end. -/
theorem inner_token (c : CodePoint) : Inner (token c) := by
  rintro ⟨i, t⟩ a q h hkind
  rcases sorts_token c _ a q h with hnumber | ⟨-, hname⟩ | hother
  · exact absurd (kind_number hnumber) (by simp [hkind])
  · exact absurd (hkind.symm.trans (ofKind_name _ _ _ hname)) nofun
  · rw [hkind] at hother
    exact absurd hother (by decide)

end Scan

namespace Lexer

/-- The token for the end of a text is the last one that its lexer gives. -/
theorem done_of_next {l next : Lexer} {t : Token} (h : l.next = .ok (some t) next)
    (ht : t.kind = .finish) : next.done = true := by
  cases steps_of_next h with
  | start => cases ht
  | finish hs => rfl
  | token hs hread =>
    have hkind := Scan.inner_token _ _ _ _ hread
    exact absurd ht hkind

/-- Nothing follows the token for the end of a text, not even an error. -/
theorem Gives.eq_nil_of_finish {l : Lexer} {before after : List Token} {t : Token}
    {e : Option SyntaxError} (h : l.Gives (before ++ t :: after) e) (ht : t.kind = .finish) :
    after = [] ∧ e = none := by
  induction before generalizing l with
  | nil =>
    cases h with
    | token h rest =>
      have hdone := done_of_next h ht
      refine rest.unique (.done ?_)
      rename_i next
      obtain ⟨place, started, done⟩ := next
      cases hdone
      rfl
  | cons u before ih =>
    cases h with
    | token h rest => exact ih rest

end Lexer

end GraphSchema
