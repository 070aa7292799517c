import GraphSchema.Proofs.Token.Lossless

/-!
# Where tokens stand

The tokens of a text stand one behind the other. All of them take up some of the text, but for those
at its ends, and what is ignored in front of a token is the text right in front of its place.

## Main definitions

* `Token.IsInner`: tokens that take up some of the text.
* `Token.Stands`: a token has its place in a text.
* `Token.Ordered`: tokens that have their places in a text, one behind the other.

## Main statements

* `Lexer.Gives.ordered`, `Lexer.Delivers.ordered`: the tokens of a text.
* `Lexer.Delivers.inner`: those between the ends of a text.
-/

namespace GraphSchema

namespace Token

/-- A token of the text itself, not one for an end of it. -/
def IsInner (t : Token) : Prop := t.kind ≠ .start ∧ t.kind ≠ .finish

/-- The token takes up the text from its start to its stop, and what is ignored in front of it is
the text that ends at its start. -/
structure Stands (source : Text) (t : Token) : Prop where
  le : t.start ≤ t.stop
  stop_le : t.stop ≤ source.length
  lt : t.IsInner → t.start < t.stop
  ignored : (source.take t.start).drop (t.start - t.ignored.length) = t.ignored
  gap : Gap (t.kind = .finish) t.ignored t.comments

/-- Tokens that stand in a text from the offset `i` on, each behind those in front of it. -/
structure Ordered (source : Text) (i : Nat) (ts : List Token) : Prop where
  le : ∀ t ∈ ts, i ≤ t.start
  stands : ∀ t ∈ ts, t.Stands source
  pairwise : ts.Pairwise fun t u => t.stop ≤ u.start

namespace Ordered

variable {source : Text} {i : Nat} {t : Token} {ts : List Token}

theorem nil : Ordered source i [] := ⟨by simp, by simp, .nil⟩

theorem cons (ht : t.Stands source) (hi : i ≤ t.start) (h : Ordered source t.stop ts) :
    Ordered source i (t :: ts) where
  le := List.forall_mem_cons.2
    ⟨hi, fun u hu => Nat.le_trans (Nat.le_trans hi ht.le) (h.le u hu)⟩
  stands := List.forall_mem_cons.2 ⟨ht, h.stands⟩
  pairwise := .cons h.le h.pairwise

theorem of_infix {us : List Token} (h : Ordered source i ts) (hus : us <:+: ts) :
    Ordered source i us where
  le u hu := h.le u (hus.subset hu)
  stands u hu := h.stands u (hus.subset hu)
  pairwise := h.pairwise.sublist hus.sublist

/-- The first token starts in front of the others. -/
theorem first_le {first : Token} (h : Ordered source i ts) (hfirst : ts.head? = some first)
    (ht : t ∈ ts) : first.start ≤ t.start := by
  obtain ⟨rest, rfl⟩ := List.head?_eq_some_iff.1 hfirst
  rcases List.mem_cons.1 ht with rfl | hrest
  · exact Nat.le_refl _
  · exact Nat.le_trans (h.stands first List.mem_cons_self).le
      (List.rel_of_pairwise_cons h.pairwise hrest)

/-- The last token ends behind the others. -/
theorem le_last {last : Token} (h : Ordered source i ts) (hlast : ts.getLast? = some last)
    (ht : t ∈ ts) : t.stop ≤ last.stop := by
  obtain ⟨before, rfl⟩ := List.getLast?_eq_some_iff.1 hlast
  have hmem : last ∈ before ++ [last] := List.mem_append_right _ (List.mem_singleton_self last)
  rcases List.mem_append.1 ht with hbefore | ht
  · have hcross := (List.pairwise_append.1 h.pairwise).2.2
    have hle := hcross t hbefore last (List.mem_singleton_self last)
    exact Nat.le_trans hle (h.stands last hmem).le
  · exact List.mem_singleton.1 ht ▸ Nat.le_refl _

end Ordered

end Token

namespace Lexer

open Scan (splitIgnored)

variable {source : Text} {p : Place} {ts : List Token} {e : Option SyntaxError}

/-- What is ignored from a place on ends where the token behind it starts. -/
theorem drop_take_ignored (hp : p.In source) {comments : List Text} {ignored left : Text}
    (hs : splitIgnored p.rest = (comments, ignored, left)) :
    (source.take (p.position + ignored.length)).drop (p.position + ignored.length - ignored.length)
      = ignored := by
  have happend := Scan.splitIgnored_append p.rest
  rw [hs, hp.rest] at happend
  rw [Nat.add_sub_cancel, List.drop_take, Nat.add_sub_cancel_left, ← happend, List.take_left]

theorem stands_finish (hp : p.In source) {comments : List Text} {ignored : Text}
    (hs : splitIgnored p.rest = (comments, ignored, [])) :
    Token.Stands source { Token.placed .finish (p.position + ignored.length)
      (p.position + ignored.length) [] with comments, ignored } where
  le := Nat.le_refl _
  stop_le := (hp.skip_ignored hs).le
  lt h := absurd rfl h.2
  ignored := drop_take_ignored hp hs
  gap := (Scan.gap_splitIgnored hs (by simp)).congr ⟨fun _ => rfl, fun _ => rfl⟩

theorem stands_token (hp : p.In source) {q : Place} {comments : List Text} {ignored left : Text}
    {c : CodePoint} {t : Token} (hs : splitIgnored p.rest = (comments, ignored, c :: left))
    (ht : Scan.token c (p.skip ignored.length) = .ok t q) :
    Token.Stands source { t with comments, ignored } := by
  obtain ⟨hq, hspans, hvisible, -⟩ := (yields_token hp hs).ok ht
  have hlt : t.start < t.stop := by
    have hless := Scan.takes_token c _ left _ _ (Place.rest_skip_ignored hs) ht
    have := (hp.skip_ignored hs).position_add_length
    have := hq.position_add_length
    have := hspans.start
    have := hspans.stop
    omega
  have hstart : t.start = p.position + ignored.length := hspans.start
  refine ⟨Nat.le_of_lt hlt, hspans.stop ▸ hq.le, fun _ => hlt, ?_, ?_⟩
  · change (source.take t.start).drop (t.start - ignored.length) = ignored
    rw [hstart]
    exact drop_take_ignored hp hs
  · exact (Scan.gap_splitIgnored hs (by simpa using hvisible)).congr
      ⟨nofun, fun h => absurd h hspans.inner.2⟩

/-- The tokens that a lexer gives once it was started, up to an error if there is one. -/
theorem Gives.ordered (h : Gives ⟨p, true, false⟩ ts e) (hp : p.In source) :
    Token.Ordered source p.position ts := by
  -- By induction on the tokens; the lexer stands at another place for each of them.
  generalize hl : (⟨p, true, false⟩ : Lexer) = l at h
  induction h generalizing p with
  | done h => exact .nil
  | fail h => exact .nil
  | token h rest ih =>
    subst hl
    cases steps_of_next h with
    | finish hs =>
      obtain ⟨rfl, -⟩ := rest.unique (.done rfl)
      exact .cons (stands_finish hp hs) (Nat.le_add_right _ _) .nil
    | token hs ht =>
      obtain ⟨hq, hspans, -, -⟩ := (yields_token hp hs).ok ht
      refine .cons (stands_token hp hs ht) ?_ ?_
      · exact hspans.start ▸ Nat.le_add_right _ _
      · exact hspans.stop ▸ ih hq rfl

/-- The tokens of a text stand one behind the other. -/
theorem Delivers.ordered (h : (ofText source).Delivers ts) : Token.Ordered source 0 ts := by
  cases h with
  | done h => cases h
  | token h rest =>
    cases h
    refine .cons ⟨Nat.le_refl _, Nat.zero_le _, fun h => absurd rfl h.1, ?_, .nil⟩
      (Nat.le_refl _) (Gives.ordered rest (Place.in_start source))
    rfl

/-- All tokens but the first and the last one take up some of the text. -/
theorem Delivers.inner {first last : Token} {inner : List Token}
    (h : (ofText source).Delivers (first :: (inner ++ [last]))) :
    first = .placed .start 0 0 [] ∧ (∀ t ∈ inner, t.IsInner) ∧ last.stop = source.length := by
  obtain ⟨⟨inner', last', heq, hinner, -, -, hstop⟩, -⟩ := h.lossless
  obtain ⟨rfl, hrest⟩ := List.cons_eq_cons.1 heq
  obtain ⟨rfl, hlast⟩ := List.append_inj' hrest rfl
  obtain rfl := List.singleton_inj.1 hlast
  exact ⟨rfl, fun t ht => (hinner t ht).2, hstop⟩

end Lexer

end GraphSchema
