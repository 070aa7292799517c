import GraphSchema.Proofs.Token.Layout

/-!
# Texts cut out of texts

From the start of one token of a text to the stop of another one, the text has the tokens in between
if it stands by itself, and no others. They stand as far further to the front as the text was cut.

## Main definitions

* `Token.Shifted`: the same token further to the front.

## Main statements

* `Lexer.Gives.exists_cut`: the tokens of a text that was cut out.
-/

namespace GraphSchema

/-- Both tokens say the same, and the first one stands `s` code points behind the second one. -/
structure Token.Shifted (s : Nat) (t t' : Token) : Prop where
  kind : t'.kind = t.kind
  value : t'.value = t.value
  start : t.start = t'.start + s
  stop : t.stop = t'.stop + s

namespace Piece

theorem forall₂_shifted_inner {s i j : Nat} (h : i = j + s) (ps : List Piece) :
    List.Forall₂ (Token.Shifted s) (inner i ps) (inner j ps) := by
  induction ps generalizing i j with
  | nil => exact .nil
  | cons p ps ih =>
    refine .cons ⟨rfl, rfl, ?_, ?_⟩ (ih (by omega))
    · simp only [token, Token.placed]
      omega
    · simp only [token, Token.placed]
      omega

/-- Without the text in front of its first token a layout has the same tokens. -/
theorem forall₂_shifted (i : Nat) (p : Piece) (ps : List Piece) :
    List.Forall₂ (Token.Shifted (i + p.gap.length)) (inner i (p :: ps))
      (inner 0 ({ p with gap := [] } :: ps)) := by
  refine .cons ⟨rfl, rfl, ?_, ?_⟩ (forall₂_shifted_inner ?_ ps)
  · simp [token, Token.placed]
  · simp only [token, Token.placed, List.length_nil]
    omega
  · simp only [List.length_nil]
    omega

/-- The last token of a layout stops where its pieces do. -/
theorem stop_getLast {i : Nat} {ps : List Piece} {last : Token}
    (h : (inner i ps).getLast? = some last) : last.stop = i + (joined ps []).length := by
  induction ps generalizing i with
  | nil => cases h
  | cons p ps ih =>
    cases ps with
    | nil =>
      obtain rfl : p.token i = last := Option.some.inj h
      simp [token, Token.placed, joined, Nat.add_assoc]
    | cons q ps =>
      rw [inner, inner, List.getLast?_cons_cons, ← inner] at h
      rw [ih h]
      simp only [joined, List.length_append]
      omega

end Piece

namespace Lexer

open Piece (joined)

variable {source : Text} {before us rest : List Token} {first last : Token}

/-- A text from the start of one of its tokens to the stop of another one has the tokens in
between. -/
theorem Gives.exists_cut (h : Gives ⟨⟨0, source⟩, true, false⟩ (before ++ (us ++ rest)) none)
    (hrest : rest ≠ []) (hfirst : us.head? = some first) (hlast : us.getLast? = some last) :
    ∃ us' t', Gives ⟨⟨0, (source.drop first.start).take (last.stop - first.start)⟩, true, false⟩
        (us' ++ [t']) none ∧ t'.kind = .finish ∧
      List.Forall₂ (Token.Shifted first.start) us us' := by
  obtain ⟨ps, g, hlaid, rfl, htokens⟩ := h.exists_laid
  obtain ⟨as, qs, rfl, -, htokens⟩ := Piece.exists_of_tokens_eq htokens.symm (by simp [hrest])
  obtain ⟨bs, cs, rfl, rfl, -⟩ := Piece.exists_of_tokens_eq htokens.symm hrest
  rw [Nat.zero_add] at hfirst hlast ⊢
  cases bs with
  | nil => cases hfirst
  | cons p bs =>
    cases hfirst
    have hstop := Piece.stop_getLast hlast
    have hcut : ((joined (as ++ (p :: bs ++ cs)) g).drop (p.token (joined as []).length).start).take
        (last.stop - (p.token (joined as []).length).start) =
          joined ({ p with gap := [] } :: bs) [] := by
      have hdrop : (p.token (joined as []).length).start = (joined as [] ++ p.gap).length := by
        rw [List.length_append]
        rfl
      have htake : last.stop - (p.token (joined as []).length).start =
          (p.text ++ joined bs []).length := by
        rw [hstop, hdrop]
        simp only [joined, List.length_append]
        omega
      have hsplit : joined (as ++ (p :: bs ++ cs)) g =
          (joined as [] ++ p.gap) ++ ((p.text ++ joined bs []) ++ joined cs g) := by
        rw [Piece.joined_append, Piece.joined_eq_append as, List.cons_append, joined,
          Piece.joined_append, Piece.joined_eq_append bs]
        simp only [List.append_assoc]
      rw [htake, hdrop, hsplit, List.drop_left, List.take_left]
      rfl
    have hgives := hlaid.middle.gives 0
    have htokens := Piece.tokens_append 0 ({ p with gap := [] } :: bs) [] []
    rw [List.append_nil] at htokens
    rw [htokens] at hgives
    exact ⟨_, _, hcut ▸ hgives, rfl, Piece.forall₂_shifted _ p bs⟩

end Lexer

end GraphSchema
