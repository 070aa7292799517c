import GraphSchema.Proofs.Grammar.Basic
import GraphSchema.Proofs.Token.Layout
import Mathlib.Computability.Language
import Mathlib.Order.CompletePartialOrder

/-!
# Lexemes that can be completed

The lexemes that the productions of the grammar write are languages. Some lexemes are viable in a
language if others can follow them, all of which have a spelling, so that together they belong to
the language.

## Main definitions

* `Lexeme.Spellable`: lexemes that a text can spell.
* `Viable`: the beginning of a member of a language.
* `Completes`: languages with a member that can be spelled.
* `Grammar.only`, `Grammar.written`, `Grammar.words`: the languages of single lexemes, of trees and
  of names.

## Main statements

* `Lexeme.spellable_of_token`: what is read from a text can be spelled.
* `Viable.append`, `Viable.left`: languages in sequence.
-/

namespace GraphSchema

open scoped Computability

/-- The lexeme has a spelling in front of whatever separates tokens. -/
def Lexeme.Spellable (l : Lexeme) : Prop :=
  ∃ s kind value, l = ⟨kind, kind.spelling?.getD value⟩ ∧
    ∀ u, Scan.Separates u → Scan.Spells s kind value u

/-- A token that takes up a whole text is spelled by it. -/
theorem Lexeme.spellable_of_token {c : CodePoint} {t : Text} {a : Token} {n : Nat}
    (h : Scan.token c ⟨0, c :: t⟩ = .ok a ⟨n, []⟩) : a.lexeme.Spellable := by
  obtain ⟨s, r, kind, value, -, hq, rfl, hs⟩ := Scan.spells_token h
  obtain rfl : [] = r := (Place.mk.inj hq).2
  refine ⟨s, kind, value, ?_, fun u hu => hs.alike (.of_separates hu)⟩
  cases hk : kind.spelling? <;> simp [Token.lexeme, Token.placed, hk]

/-- Other lexemes, each with a spelling, can follow these ones in the language. -/
def Viable (S : Language Lexeme) (ls : List Lexeme) : Prop :=
  ∃ rest, (∀ l ∈ rest, l.Spellable) ∧ ls ++ rest ∈ S

/-- Some member of the language consists of lexemes with spellings. -/
class Completes (S : Language Lexeme) : Prop where
  viable_nil : Viable S []

namespace Viable

variable {S S' : Language Lexeme} {us vs : List Lexeme}

theorem mono (h : Viable S us) (hS : S ≤ S') : Viable S' us := by
  obtain ⟨rest, hrest, hmem⟩ := h
  exact ⟨rest, hrest, hS hmem⟩

/-- Members of one language may go on in another one. -/
theorem trans (h : Viable S us) (hS : ∀ ls ∈ S, Viable S' ls) : Viable S' us := by
  obtain ⟨rest, hrest, hmem⟩ := h
  obtain ⟨more, hmore, hmem'⟩ := hS _ hmem
  refine ⟨rest ++ more, fun l hl => (List.mem_append.1 hl).elim (hrest l) (hmore l), ?_⟩
  rwa [← List.append_assoc]

theorem of_mem (h : us ∈ S) : Viable S us := ⟨[], by simp, by rwa [List.append_nil]⟩

/-- Behind a member of one language. -/
theorem append (hu : us ∈ S) (hv : Viable S' vs) : Viable (S * S') (us ++ vs) := by
  obtain ⟨rest, hrest, hmem⟩ := hv
  exact ⟨rest, hrest, by rw [List.append_assoc]; exact Language.append_mem_mul hu hmem⟩

/-- In front of a language that can be completed. -/
theorem left (h : Viable S us) [hS : Completes S'] : Viable (S * S') us := by
  refine h.trans fun ls hls => ?_
  obtain ⟨more, hmore, hmem⟩ := hS.viable_nil
  exact ⟨more, hmore, Language.append_mem_mul hls hmem⟩

end Viable

namespace Completes

variable {S S' : Language Lexeme}

theorem of_le (hS : S ≤ S') [h : Completes S] : Completes S' := ⟨h.viable_nil.mono hS⟩

instance one : Completes 1 := ⟨.of_mem (Language.nil_mem_one)⟩

instance mul [h : Completes S] [Completes S'] : Completes (S * S') := ⟨h.viable_nil.left⟩

instance kstar : Completes S∗ := ⟨.of_mem (Language.nil_mem_kstar S)⟩

instance add [Completes S'] : Completes (S + S') :=
  of_le (S := S') fun _ h => .inr h

theorem prod {γ : Type} {L : γ → Language Lexeme} [∀ x, Completes (L x)] (xs : List γ) :
    Completes (xs.map L).prod := by
  induction xs with
  | nil => exact one
  | cons x xs ih =>
    rw [List.map_cons, List.prod_cons]
    infer_instance

end Completes

namespace Grammar

open Lexeme (symbol word)

variable {β : Type}

/-- A single lexeme. -/
def only (l : Lexeme) : Language Lexeme := {[l]}

/-- What is written for trees of some sort. -/
def written (W : β → List Lexeme) : Language Lexeme := Set.range W

/-- Names of some sort. -/
def words (p : Text → Prop) : Language Lexeme := written fun w : { w // p w } => [word w]

/-! ## Lexemes with known spellings -/

theorem completes_only {c : CodePoint} {t : Text} {a : Token} {n : Nat}
    (h : Scan.token c ⟨0, c :: t⟩ = .ok a ⟨n, []⟩) : Completes (only a.lexeme) :=
  ⟨[a.lexeme], by simpa using Lexeme.spellable_of_token h, rfl⟩

theorem spellable_of_completes {l : Lexeme} [h : Completes (only l)] : l.Spellable := by
  obtain ⟨rest, hrest, rfl⟩ := h.viable_nil
  exact hrest l List.mem_cons_self

/-- A symbol that a single code point makes up. -/
theorem completes_symbol {k : Token.Kind} (c : CodePoint)
    (h : Scan.token c ⟨0, [c]⟩ = .ok (.placed k 0 1 []) ⟨1, []⟩) : Completes (only (symbol k)) := by
  have hlexeme : (Token.placed k 0 1 []).lexeme = symbol k := by
    cases hk : k.spelling? <;> simp [Token.lexeme, Token.placed, symbol, hk]
  exact hlexeme ▸ completes_only h

/-- A name that a text makes up. -/
theorem completes_word {w : Text} {n : Nat}
    (h : Scan.token (w.headD ' ') ⟨0, w⟩ = .ok (.placed .name 0 n w) ⟨n, []⟩) :
    Completes (only (word w)) := by
  cases w with
  | nil =>
    obtain ⟨e, q, hfail⟩ : ∃ e q, Scan.token (([] : Text).headD ' ') ⟨0, []⟩ = .error e q :=
      ⟨_, _, by with_unfolding_all rfl⟩
    rw [hfail] at h
    cases h
  | cons c t => exact completes_only h

theorem completes_written {W : β → List Lexeme} {b : β} {l : Lexeme} (h : W b = [l])
    [Completes (only l)] : Completes (written W) :=
  .of_le (S := only l) fun _ hl => ⟨b, h.trans hl.symm⟩

/-- A tree for which nothing is written. -/
theorem completes_of_nil {W : β → List Lexeme} {b : β} (h : W b = []) : Completes (written W) :=
  .of_le (S := 1) fun _ hl => ⟨b, h.trans (Language.mem_one _ |>.1 hl).symm⟩

instance {o c : Token.Kind} {W : β → List Lexeme} : Completes (written (enclosed o c W)) :=
  completes_of_nil (b := []) rfl

theorem completes_words {p : Text → Prop} (w : Text) (hw : p w) [Completes (only (word w))] :
    Completes (words p) :=
  completes_written (b := ⟨w, hw⟩) rfl

instance : Completes (only (symbol .colon)) := completes_symbol ':' (by with_unfolding_all rfl)

instance : Completes (only (symbol .equals)) := completes_symbol '=' (by with_unfolding_all rfl)

instance : Completes (only (symbol .sign)) := completes_symbol '@' (by with_unfolding_all rfl)

instance : Completes (only (symbol .pipe)) := completes_symbol '|' (by with_unfolding_all rfl)

instance : Completes (only (symbol .ampersand)) := completes_symbol '&' (by with_unfolding_all rfl)

instance : Completes (only (symbol .exclamationMark)) :=
  completes_symbol '!' (by with_unfolding_all rfl)

instance : Completes (only (symbol .parenOpen)) := completes_symbol '(' (by with_unfolding_all rfl)

instance : Completes (only (symbol .parenClose)) := completes_symbol ')' (by with_unfolding_all rfl)

instance : Completes (only (symbol .bracketOpen)) :=
  completes_symbol '[' (by with_unfolding_all rfl)

instance : Completes (only (symbol .bracketClose)) :=
  completes_symbol ']' (by with_unfolding_all rfl)

instance : Completes (only (symbol .curlyOpen)) :=
  completes_symbol '\x7b' (by with_unfolding_all rfl)

instance : Completes (only (symbol .curlyClose)) :=
  completes_symbol '\x7d' (by with_unfolding_all rfl)

instance (k : Keyword) : Completes (only (word k.spelling)) := by
  cases k with
  | schema => exact completes_word (by with_unfolding_all rfl)
  | type k => cases k <;> exact completes_word (by with_unfolding_all rfl)
  | directive => exact completes_word (by with_unfolding_all rfl)

instance : Completes (only (word Parse.extendWord)) := completes_word (by with_unfolding_all rfl)

instance : Completes (only (word "implements")) := completes_word (by with_unfolding_all rfl)

instance : Completes (only (word "on")) := completes_word (by with_unfolding_all rfl)

instance : Completes (only (word "null")) := completes_word (by with_unfolding_all rfl)

instance : Completes (only (word "query")) := completes_word (by with_unfolding_all rfl)

instance : Completes (only (word "QUERY")) := completes_word (by with_unfolding_all rfl)

end Grammar

end GraphSchema
