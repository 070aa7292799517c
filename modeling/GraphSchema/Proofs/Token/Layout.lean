import GraphSchema.Proofs.Token.Last
import GraphSchema.Proofs.Token.Local
import GraphSchema.Proofs.Token.Lossless
import Mathlib.Data.List.Forall2

/-!
# Texts by their tokens

A text that is read without an error is a layout: pieces, each with a text between tokens and the
spelling of a token, and a last text between tokens. A layout stays one if other texts stand between
its tokens, and if what follows some of its pieces is replaced.

## Main definitions

* `Blank`: a text that may stand between tokens.
* `Piece`: the spelling of a token with the text in front of it.
* `Laid`: the layouts, and `Piece.tokens`, their tokens.

## Main statements

* `Laid.gives`, `Lexer.Gives.exists_laid`: layouts are the texts that are read without an error.
* `Laid.regap`: other texts between the tokens.
* `Laid.replace`: other pieces behind some of them.
-/

namespace GraphSchema

/-- A text that may stand between tokens, or at the end of a text if it is the `last` one: ignored
characters and comments, which hold no control characters. -/
def Blank (last : Prop) (g : Text) : Prop :=
  ∃ comments, Gap last g comments ∧ ∀ body ∈ comments, ∀ c ∈ body, Scan.isVisible c

/-- A text between tokens, and the spelling of a token of a kind with a value behind it. -/
structure Piece where
  gap : Text
  text : Text
  kind : Token.Kind
  value : Text

namespace Piece

/-- The text that pieces make up, with a last text behind them. -/
def joined : List Piece → Text → Text
  | [], last => last
  | p :: ps, last => p.gap ++ (p.text ++ joined ps last)

/-- The token of a piece that stands at an offset. -/
def token (i : Nat) (p : Piece) : Token :=
  { Token.placed p.kind (i + p.gap.length) (i + p.gap.length + p.text.length) p.value with
    comments := (Scan.splitIgnored p.gap).1, ignored := p.gap }

/-- The tokens of pieces from an offset on, and the one for the end of a text. -/
def tokens (i : Nat) : List Piece → Text → List Token
  | [], last =>
    [{ Token.placed .finish (i + last.length) (i + last.length) [] with
      comments := (Scan.splitIgnored last).1, ignored := last }]
  | p :: ps, last => p.token i :: tokens (i + p.gap.length + p.text.length) ps last

theorem joined_append (ps qs : List Piece) (last : Text) :
    joined (ps ++ qs) last = joined ps (joined qs last) := by
  induction ps with
  | nil => rfl
  | cons p ps ih => simp only [List.cons_append, joined, ih]

/-- What stands behind pieces is the end of their text. -/
theorem joined_eq_append (ps : List Piece) (last : Text) :
    joined ps last = joined ps [] ++ last := by
  induction ps with
  | nil => rfl
  | cons p ps ih =>
    rw [joined, joined, ih]
    simp

/-- The tokens of pieces without the one for the end. -/
def inner (i : Nat) : List Piece → List Token
  | [] => []
  | p :: ps => p.token i :: inner (i + p.gap.length + p.text.length) ps

theorem tokens_append (i : Nat) (ps qs : List Piece) (last : Text) :
    tokens i (ps ++ qs) last = inner i ps ++ tokens (i + (joined ps []).length) qs last := by
  induction ps generalizing i with
  | nil => rfl
  | cons p ps ih =>
    simp only [List.cons_append, tokens, inner, joined, ih, List.length_append, Nat.add_assoc]

/-- What stands in front of some of the tokens are the tokens of pieces. -/
theorem exists_of_tokens_eq {i : Nat} {ps : List Piece} {last : Text} {us ts : List Token}
    (h : tokens i ps last = us ++ ts) (hts : ts ≠ []) :
    ∃ qs rest, ps = qs ++ rest ∧ us = inner i qs ∧
      ts = tokens (i + (joined qs []).length) rest last := by
  induction us generalizing i ps with
  | nil => exact ⟨[], ps, rfl, rfl, h.symm⟩
  | cons u us ih =>
    cases ps with
    | nil =>
      obtain ⟨-, hnil⟩ := List.cons.inj h
      exact absurd (List.append_eq_nil_iff.1 hnil.symm).2 hts
    | cons p ps =>
      obtain ⟨rfl, htail⟩ := List.cons.inj h
      obtain ⟨qs, rest, rfl, rfl, rfl⟩ := ih htail
      refine ⟨p :: qs, rest, rfl, rfl, ?_⟩
      simp only [joined, List.length_append, Nat.add_assoc]

/-- What the tokens say does not depend on what stands between them. -/
theorem map_tokens {β : Type} (f : Token.Kind → Text → β) (i : Nat) (ps : List Piece)
    (last : Text) :
    (tokens i ps last).map (fun t => f t.kind t.value) =
      ps.map (fun p => f p.kind (p.kind.spelling?.getD p.value)) ++ [f .finish "<EOF>"] := by
  induction ps generalizing i with
  | nil => rfl
  | cons p ps ih =>
    rw [tokens, List.map_cons, ih]
    rfl

end Piece

/-- The pieces with a text behind them are a layout: their texts may stand between tokens, and each
of their spellings is read as its token in front of what follows it. -/
inductive Laid : List Piece → Text → Prop
  | last {g : Text} (h : Blank True g) : Laid [] g
  | cons {p : Piece} {ps : List Piece} {g : Text} (gap : Blank False p.gap)
      (spelled : Scan.Spells p.text p.kind p.value (Piece.joined ps g)) (rest : Laid ps g) :
      Laid (p :: ps) g

namespace Scan

variable {c : CodePoint} {t r g : Text} {comments : List Text}

theorem mem_separators : c ∈ separators ↔ isIgnored c ∨ c = '#' := by
  simp [separators, isIgnored, or_assoc]

/-- No token starts with what separates tokens. -/
theorem not_mem_separators {p q : Place} {a : Token} (hp : p.rest = c :: t)
    (h : token c p = .ok a q) : c ∉ separators := by
  intro hc
  have hnone : ∀ c ∈ separators, Token.Kind.ofSymbol? c = none ∧ c ≠ '.' ∧ c ≠ quotationMark ∧
      ¬(c = '-' ∨ c.isDigit) ∧ ¬startsName c := by decide
  obtain ⟨hsymbol, hdot, hquote, hnumber, hname⟩ := hnone c hc
  have hopen : ¬tripleQuote.isPrefixOf p.rest := by
    rw [hp, isPrefixOf_tripleQuote]
    rintro ⟨u, hu⟩
    exact hquote (List.cons.inj hu).1
  unfold token at h
  split at h
  · rw [hsymbol] at h
    change (if tripleQuote.isPrefixOf p.rest then _ else _ : Scan Token) p = _ at h
    rw [if_neg hopen] at h
    cases h
  · cases h

/-- The comments that are read hold no control characters. -/
theorem isVisible_of_mem_splitIgnored (t : Text) :
    ∀ body ∈ (splitIgnored t).1, ∀ c ∈ body, isVisible c := by
  fun_induction splitIgnored t with
  | case1 => simp
  | case2 c rest hc comments ignored left heq ih => rwa [heq] at ih
  | case3 rest comment comments ignored left heq hc ih =>
    rw [heq] at ih
    exact List.forall_mem_cons.2 ⟨List.all_eq_true.1 List.all_takeWhile, ih⟩
  | case4 => simp

/-- A text that may stand between tokens is what is ignored in front of the next token. -/
theorem splitIgnored_gap {last : Prop} (h : Gap last g comments)
    (hv : ∀ body ∈ comments, ∀ c ∈ body, isVisible c) (hr : ∀ c ∈ r.head?, c ∉ separators)
    (hlast : last → r = []) : splitIgnored (g ++ r) = (comments, g, r) := by
  induction h with
  | nil =>
    cases r with
    | nil => rw [List.append_nil, splitIgnored]
    | cons c r =>
      have hc := hr c rfl
      rw [mem_separators, not_or] at hc
      rw [List.nil_append, splitIgnored, if_neg hc.1, if_neg hc.2]
  | ignored hc h ih =>
    rw [List.cons_append, splitIgnored, if_pos hc, ih hv]
  | @comment body t comments hbody hend hnil h ih =>
    have hvisible := List.forall_mem_cons.1 hv
    -- The comment ends where its line does, or where there is nothing more.
    have hstop : ∀ c ∈ (t ++ r).head?, ¬isVisible c := by
      cases t with
      | nil => simp [hlast (hnil rfl)]
      | cons d t =>
        rintro _ ⟨⟩ hd
        exact not_isLineEnd hd (hend d rfl)
    have htake : (body ++ (t ++ r)).takeWhile isVisible = body :=
      takeWhile_append_of_stop hvisible.1 hstop
    have hdrop : (body ++ (t ++ r)).dropWhile isVisible = t ++ r := by
      refine (List.append_right_inj body).1 ?_
      conv => lhs; arg 1; rw [← htake]
      exact List.takeWhile_append_dropWhile
    rw [List.cons_append, splitIgnored, if_neg (by decide), if_pos rfl, List.append_assoc, htake,
      hdrop, ih hvisible.2]
    rfl

/-- What is ignored in front of a token, and at the end of a text, may stand there. -/
theorem blank_splitIgnored {left : Text} (h : splitIgnored t = (comments, g, left))
    (hleft : ∀ c ∈ left.head?, isVisible c) : Blank (left = []) g := by
  have hvisible := isVisible_of_mem_splitIgnored t
  rw [h] at hvisible
  exact ⟨comments, gap_splitIgnored h hleft, hvisible⟩

end Scan

namespace Blank

variable {last : Prop} {g r : Text}

theorem nil : Blank last [] := ⟨[], .nil, by simp⟩

theorem congr {last' : Prop} (h : Blank last g) (hlast : last ↔ last') : Blank last' g :=
  propext hlast ▸ h

/-- What is ignored in front of a token: the whole of the text that stands there. -/
theorem splitIgnored (h : Blank last g) (hr : ∀ c ∈ r.head?, c ∉ Scan.separators)
    (hlast : last → r = []) :
    Scan.splitIgnored (g ++ r) = ((Scan.splitIgnored g).1, g, r) := by
  obtain ⟨comments, hgap, hvisible⟩ := h
  have hself := Scan.splitIgnored_gap hgap hvisible (r := []) (by simp) fun _ => rfl
  rw [List.append_nil] at hself
  rw [Scan.splitIgnored_gap hgap hvisible hr hlast, hself]

/-- A text between tokens separates them, if it is not empty. -/
theorem separates (h : Blank last g) (hg : g ≠ []) : Scan.Separates (g ++ r) := by
  obtain ⟨comments, hgap, -⟩ := h
  obtain ⟨c, g, rfl⟩ := List.exists_cons_of_ne_nil hg
  rintro _ ⟨⟩
  exact Scan.mem_separators.2 hgap.head

theorem separates_self (h : Blank last g) : Scan.Separates g := by
  by_cases hg : g = []
  · rw [hg]
    rintro _ ⟨⟩
  · have := h.separates (r := []) hg
    rwa [List.append_nil] at this

/-- A text may stand between tokens just if all of it, and nothing more, is ignored in front of a
name, or at the end of a text. -/
theorem iff_splitIgnored [Decidable last] : Blank last g ↔
    (Scan.splitIgnored (g ++ if last then [] else "x")).2 = (g, if last then [] else "x") := by
  constructor
  · intro h
    rw [h.splitIgnored (r := if last then [] else "x") ?_ fun hlast => if_pos hlast]
    split
    · simp
    · rintro _ ⟨⟩
      decide
  · intro h
    have hsplit : ∀ {r : Text}, (Scan.splitIgnored (g ++ r)).2 = (g, r) →
        Scan.splitIgnored (g ++ r) = ((Scan.splitIgnored (g ++ r)).1, g, r) :=
      fun h => Prod.ext rfl h
    by_cases hlast : last
    · rw [if_pos hlast] at h
      exact (Scan.blank_splitIgnored (hsplit h) nofun).congr (by simp [hlast])
    · rw [if_neg hlast] at h
      exact (Scan.blank_splitIgnored (hsplit h) (by decide)).congr (by simpa [hlast] using nofun)

instance [Decidable last] : Decidable (Blank last g) := decidable_of_iff _ iff_splitIgnored.symm

end Blank

/-- The first code point of a token is none that separates tokens. -/
theorem Scan.Spells.head {s value u : Text} {kind : Token.Kind} (h : Spells s kind value u) :
    ∀ c ∈ (s ++ u).head?, c ∉ separators := by
  obtain ⟨c, s, rfl⟩ := List.exists_cons_of_ne_nil h.ne_nil
  rintro _ ⟨⟩
  exact not_mem_separators rfl (h.read c rfl 0)

/-- Tokens start with characters. -/
theorem Scan.isVisible_of_token {c : CodePoint} {p q : Place} {a : Token}
    (h : token c p = .ok a q) : isVisible c := by
  unfold token at h
  split at h
  · assumption
  · cases h

theorem Lexer.scan_of_ok {α : Type} {x : Scan α} {l : Lexer} {a : α} {q : Place}
    (h : x l.place = .ok a q) : scan x l = .ok a { l with place := q } := by
  simp only [scan, h]

/-! ## Layouts are the texts that are read without an error -/

open Piece (joined tokens)

/-- A layout gives its tokens. -/
theorem Laid.gives {ps : List Piece} {g : Text} (h : Laid ps g) (i : Nat) :
    Lexer.Gives ⟨⟨i, joined ps g⟩, true, false⟩ (tokens i ps g) none := by
  induction h generalizing i with
  | @last g h =>
    have hs := h.splitIgnored (r := []) (by simp) fun _ => rfl
    rw [List.append_nil] at hs
    exact .token (Lexer.next_eq_of_started hs (fun _ => rfl) nofun) (.done rfl)
  | @cons p ps g gap spelled rest ih =>
    have hs := gap.splitIgnored spelled.head False.elim
    refine .token (Lexer.next_eq_of_started hs (fun hnil => ?_) fun c left hleft => ?_) (ih _)
    · exact absurd (List.append_eq_nil_iff.1 hnil).1 spelled.ne_nil
    · have hc : c ∈ p.text.head? := by
        obtain ⟨d, s, hd⟩ := List.exists_cons_of_ne_nil spelled.ne_nil
        rw [hd] at hleft ⊢
        exact congrArg some (List.cons.inj hleft).1
      rw [bind_of_ok (Lexer.scan_of_ok (spelled.read c hc _))]
      rfl

/-- A text that is read without an error is a layout. -/
theorem Lexer.Gives.exists_laid {i : Nat} {t : Text} {ts : List Token}
    (h : Gives ⟨⟨i, t⟩, true, false⟩ ts none) :
    ∃ ps g, Laid ps g ∧ t = joined ps g ∧ ts = tokens i ps g := by
  -- By induction on the tokens; the lexer stands at another place for each of them.
  generalize hl : (⟨⟨i, t⟩, true, false⟩ : Lexer) = l at h
  generalize he : (none : Option SyntaxError) = e at h
  induction h generalizing i t with
  | done h =>
    subst hl
    cases steps_of_next h
  | fail h => cases he
  | token h rest ih =>
    subst hl
    cases steps_of_next h with
    | @finish _ comments ignored hs =>
      obtain ⟨rfl, -⟩ := rest.unique (.done rfl)
      have happend := Scan.splitIgnored_append t
      have hs : Scan.splitIgnored t = _ := hs
      rw [hs, List.append_nil] at happend
      subst happend
      refine ⟨[], ignored, .last ?_, rfl, ?_⟩
      · exact (Scan.blank_splitIgnored hs (by simp)).congr (iff_of_true rfl trivial)
      · rw [tokens, hs]
    | @token _ q comments ignored left c a hs ht =>
      have happend := Scan.splitIgnored_append t
      have hs : Scan.splitIgnored t = _ := hs
      rw [hs] at happend
      subst happend
      have hvisible := Scan.isVisible_of_token ht
      have hhead := Scan.not_mem_separators (Place.rest_skip_ignored hs) ht
      have hgap : Blank False ignored :=
        (Scan.blank_splitIgnored hs (by simpa using hvisible)).congr (by simp)
      have hself := hgap.splitIgnored (r := c :: left) (by simpa using hhead) False.elim
      rw [Place.skip_ignored hs] at ht
      rw [hs] at hself
      obtain rfl : comments = _ := congrArg Prod.fst hself
      obtain ⟨s, r, kind, value, hleft, rfl, rfl, hspells⟩ := Scan.spells_token ht
      obtain ⟨ps, g, hlaid, rfl, rfl⟩ := ih rfl he
      exact ⟨⟨ignored, s, kind, value⟩ :: ps, g, .cons hgap hspells hlaid, by rw [hleft]; rfl, rfl⟩

/-! ## Changes of a layout -/

namespace Laid

variable {ps qs rest : List Piece} {p q : Piece} {g g' : Text}

/-- What follows some pieces, without them. -/
theorem of_append (h : Laid (ps ++ rest) g) : Laid rest g := by
  induction ps with
  | nil => exact h
  | cons p ps ih =>
    cases h with
    | cons _ _ h => exact ih h

/-- Other pieces behind some of them, where these do not show the difference. -/
theorem replace (h : Laid (ps ++ rest) g) (hq : Laid qs g')
    (hu : Scan.Alike (joined rest g) (joined qs g')) : Laid (ps ++ qs) g' := by
  induction ps with
  | nil => exact hq
  | cons p ps ih =>
    cases h with
    | cons gap spelled h =>
      refine .cons gap (spelled.alike ?_) (ih h)
      change Scan.Alike (joined (ps ++ rest) g) (joined (ps ++ qs) g')
      rw [Piece.joined_append, Piece.joined_append, Piece.joined_eq_append ps,
        Piece.joined_eq_append ps (joined qs g')]
      exact hu.append _

/-- The same token, perhaps behind another text. -/
structure Respaced (p q : Piece) : Prop where
  text : q.text = p.text
  kind : q.kind = p.kind
  value : q.value = p.value
  gap : Blank False q.gap

/-- Where something stands between two tokens something remains. -/
def Apart (p q : Piece) : Prop := p.gap ≠ [] → q.gap ≠ []

/-- With other texts between the tokens nothing in front of them shows the difference. -/
theorem alike_joined (h : Laid ps g) (hr : List.Forall₂ Respaced ps qs)
    (ha : List.Forall₂ Apart ps qs) (hg : Blank True g') :
    Scan.Alike (joined ps g) (joined qs g') := by
  cases hr with
  | nil => exact .of_separates hg.separates_self
  | @cons p q ps qs hr _ =>
    cases ha with
    | cons ha _ =>
      cases h with
      | cons _ spelled _ =>
        by_cases hq : q.gap = []
        · have hp : p.gap = [] := not_imp_not.1 ha hq
          obtain ⟨c, s, hs⟩ := List.exists_cons_of_ne_nil spelled.ne_nil
          left
          simp [joined, hp, hq, hr.text, hs]
        · exact .of_separates (hr.gap.separates hq)

/-- Other texts between the tokens, where none that was there becomes empty but perhaps the first
one. -/
theorem regap (h : Laid ps g) (hr : List.Forall₂ Respaced ps qs)
    (ha : List.Forall₂ Apart ps.tail qs.tail) (hg : Blank True g') : Laid qs g' := by
  induction h generalizing qs with
  | last => cases hr; exact .last hg
  | cons gap spelled h ih =>
    cases hr with
    | cons hr hrs =>
      refine .cons hr.gap ?_ (ih hrs ?_)
      · rw [hr.text, hr.kind, hr.value]
        exact spelled.alike (h.alike_joined hrs ha hg)
      · cases ha with
        | nil => exact .nil
        | cons _ ha => exact ha

/-- Some pieces from the middle, and nothing in front of them or behind. -/
theorem middle (h : Laid (ps ++ (p :: qs ++ rest)) g) : Laid ({ p with gap := [] } :: qs) [] := by
  have hend : Laid (p :: qs ++ []) [] :=
    h.of_append.replace (.last .nil) (.of_separates (by rintro _ ⟨⟩))
  rw [List.append_nil] at hend
  cases hend with
  | cons _ spelled rest => exact .cons .nil spelled rest

end Laid

end GraphSchema
