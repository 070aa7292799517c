import GraphSchema.Proofs.Token.Last
import Mathlib.Data.List.TakeWhile

/-!
# Names as tokens

A name is as long as it can be: no code point that could go on with it follows. The grammar that is
read differs in one point from the one of the language, where the digits of names are ASCII digits:
digits of all scripts are read.

## Main definitions

* `Text.IsName`: the names of the language.
* `Scan.IsWord`: what is read as a name in front of a text.
* `Token.IsWordOf`: a token is a name of a text.

## Main statements

* `Scan.IsWord.isName_iff`: which of the names that are read are names of the language.
* `Lexer.Gives.isWordOf`: the tokens that are names.
-/

namespace GraphSchema

/-- A name of the language: a letter or an underscore, and letters, underscores and ASCII digits
behind it. -/
structure Text.IsName (t : Text) : Prop where
  first : ∃ c ∈ t.head?, Scan.startsName c
  all : ∀ c ∈ t, Scan.startsName c ∨ c.isAsciiDigit

namespace Scan

variable {c : CodePoint} {i : Nat} {t r : Text}

/-- The text `t` is read as a name in front of `r`: a letter or an underscore, and all letters,
underscores and digits of any script that follow. -/
structure IsWord (t r : Text) : Prop where
  first : ∃ c ∈ t.head?, startsName c
  all : ∀ c ∈ t, inName c
  ends : ∀ c ∈ r.head?, ¬inName c

theorem not_isDigit_of_startsName (h : startsName c) : ¬c.isDigit := by
  have hascii : ∀ n : Fin 128, startsName ⟨n, by omega⟩ → ¬CodePoint.isDigit ⟨n, by omega⟩ := by
    decide +kernel
  have hval : c.val < 128 := by
    simp only [startsName, CodePoint.isLetter, CodePoint.between, Bool.or_eq_true,
      Bool.and_eq_true, decide_eq_true_eq] at h
    rcases h with rfl | ⟨-, h⟩ | ⟨-, h⟩
    · decide
    · exact Nat.lt_of_le_of_lt h (by decide)
    · exact Nat.lt_of_le_of_lt h (by decide)
  exact hascii ⟨c.val, hval⟩ h

/-- What is read as a name is one of the language just if its digits are ASCII digits. -/
theorem IsWord.isName_iff (h : IsWord t r) :
    t.IsName ↔ ∀ c ∈ t, c.isDigit → c.isAsciiDigit := by
  constructor
  · intro hname c hc hdigit
    exact (hname.all c hc).resolve_left fun hstarts => not_isDigit_of_startsName hstarts hdigit
  · intro hdigits
    refine ⟨h.first, fun c hc => ?_⟩
    exact (Bool.or_eq_true_iff.1 (h.all c hc)).imp_right (hdigits c hc)

theorem name_eq_ok {a : Token} {q : Place} (hc : startsName c)
    (h : name ⟨i, c :: t⟩ = .ok a q) :
    ∃ r, c :: t = a.value ++ r ∧ IsWord a.value r ∧ a.start = i ∧ a.stop = i + a.value.length := by
  have hin : inName c := Bool.or_eq_true_iff.2 (.inl hc)
  have hvalue : a.value = (c :: t).takeWhile inName := by
    have hread : a.value = (c :: t).take (i + ((c :: t).takeWhile inName).length - i) := by
      cases h
      rfl
    rw [hread, Nat.add_sub_cancel_left]
    exact List.prefix_iff_eq_take.1 (List.takeWhile_prefix _) |>.symm
  have hplace : a.start = i ∧ a.stop = i + ((c :: t).takeWhile inName).length := by
    cases h
    exact ⟨rfl, rfl⟩
  refine ⟨(c :: t).dropWhile inName, ?_,
    ⟨⟨c, ?_, hc⟩, fun d hd => ?_, fun _ => not_of_mem_head?_dropWhile⟩, hplace.1, ?_⟩
  · rw [hvalue, List.takeWhile_append_dropWhile]
  · rw [hvalue, List.takeWhile_cons_of_pos hin]
    rfl
  · rw [hvalue] at hd
    exact List.mem_takeWhile_imp hd
  · rw [hvalue]
    exact hplace.2

end Scan

/-- The token takes up the text as the name that is its value. -/
def Token.IsWordOf (source : Text) (t : Token) : Prop :=
  ∃ r, source.drop t.start = t.value ++ r ∧ Scan.IsWord t.value r ∧
    t.stop = t.start + t.value.length

namespace Lexer

variable {source : Text} {l next : Lexer} {t : Token}

/-- A name that is returned. -/
theorem Reached.isWordOf (hl : Reached source l) (h : l.next = .ok (some t) next)
    (hkind : t.kind = .name) : t.IsWordOf source := by
  have hinner : t.kind ≠ .start ∧ t.kind ≠ .finish := by
    rw [hkind]
    decide
  obtain ⟨hbefore, c, rest, hdrop⟩ := hl.before_of_next h hinner
  rcases hbefore.next hdrop with ⟨u, q, comments, ignored, hread, hnext⟩ | ⟨e, q, -, hnext⟩
  · rw [hnext] at h
    cases h
    have hu : u.kind = .name := hkind
    rcases Scan.sorts_token c _ _ _ hread with hnumber | ⟨hc, hname⟩ | hother
    · exact absurd (Scan.kind_number hnumber) (by simp [hu])
    · obtain ⟨r, htext, hword, -, hstop⟩ := Scan.name_eq_ok hc hname
      exact ⟨r, hdrop.trans htext, hword, hstop⟩
    · rw [hu] at hother
      exact absurd hother (by decide)
  · rw [hnext] at h
    cases h

/-- The names among the tokens of a text. -/
theorem Gives.isWordOf {ts : List Token} {e : Option SyntaxError} (h : l.Gives ts e)
    (hl : Reached source l) : ∀ t ∈ ts, t.kind = .name → t.IsWordOf source := by
  induction h with
  | done => nofun
  | fail => nofun
  | token h rest ih => exact List.forall_mem_cons.2 ⟨hl.isWordOf h, ih (hl.token h)⟩

end Lexer

end GraphSchema
