import GraphSchema.Proofs.Parser.Document
import GraphSchema.Proofs.Parser.Twin.Definition
import GraphSchema.Proofs.Parser.Whole
import GraphSchema.Proofs.Token.Order

/-!
# Whole documents in two texts

The definitions of a document are read alike in two texts whose tokens say the same. All of a text
is read behind the token for its start, with which every text opens.

## Main definitions

* `Twin.saying`: two texts whose tokens match if they say the same, wherever they stand.
* `Parse.definitionsLanguage`: what may stand behind the token for the start of a document.

## Main statements

* `Lexer.Delivers.exists_opened`: the tokens behind the one for the start.
* `Parse.tracks_definitions`: the definitions of a document.
-/

namespace GraphSchema

/-! ## The tokens behind the one for the start -/

namespace Lexer

variable {source : Text} {ts : List Token}

/-- The tokens of a text without the one for its start. -/
theorem Delivers.exists_opened (h : (ofText source).Delivers ts) :
    ∃ us, ts = .placed .start 0 0 [] :: us ∧ (opened source).Gives us none := by
  cases h with
  | done h => cases h
  | token h rest =>
    cases h
    exact ⟨_, rfl, rest⟩

/-- Each token starts in front of those behind it. -/
theorem Gives.pairwise_start (h : (opened source).Gives ts none) :
    ts.Pairwise fun t u => t.start < u.start := by
  obtain ⟨inner, last, rfl, hinner, -⟩ := (h.covers (Place.in_start source)).shape
  obtain ⟨hpair, hlast, hcross⟩ := List.pairwise_append.1
    (h.ordered (Place.in_start source)).pairwise
  refine List.pairwise_append.2 ⟨hpair.imp_of_mem fun ht _ hle => ?_, .cons nofun .nil,
    fun t ht u hu => Nat.lt_of_lt_of_le (hinner t ht).1 (hcross t ht u hu)⟩
  exact Nat.lt_of_lt_of_le (hinner _ ht).1 hle

/-- The last token is the one for the end of the text. -/
theorem Gives.kind_getLast {last : Token} (h : (opened source).Gives ts none)
    (hlast : ts.getLast? = some last) : last.kind = .finish := by
  obtain ⟨inner, last', rfl, -, hkind, -⟩ := (h.covers (Place.in_start source)).shape
  rw [List.getLast?_concat] at hlast
  cases hlast
  exact hkind

/-- There is one token for each code point at most, and one for the end of the text. -/
theorem Gives.length_le_opened {e : Option SyntaxError} (h : (opened source).Gives ts e) :
    ts.length ≤ source.length + 1 := by
  simpa [bound, opened] using h.length_le

end Lexer

/-- Two documents whose tokens match if they are of one kind and have the same value. -/
def Twin.saying (d d' : Parser.Document) (ts : List Token) (room : d.budget ≤ d'.budget)
    (fits : ts.length ≤ d.budget) (ordered : ts.Pairwise fun t u => t.start < u.start) : Twin where
  first := d
  second := d'
  tokens := ts
  cut := False
  same t t' := t'.kind = t.kind ∧ t'.value = t.value
  stops _ _ := True
  view _ := .none
  view' _ := .none
  room := room
  fits := fits
  kind_eq h := h.1
  value_eq h := h.2
  stop _ := trivial
  info _ _ := rfl
  partner t _ := ⟨t, rfl, rfl⟩
  ordered := ordered

namespace Parse

open Grammar (only written Written)
open Lexeme (symbol)
open Twin (Other)
open scoped Computability

variable {T : Twin} {k : Nat}

/-- The parser at the first token behind the one for the start of a text. -/
theorem ready_opened {T : Twin} {source : Text} {us : List Token}
    (h : (Lexer.opened source).Gives us none) (hus : T.tokens = us) :
    Ready T 0 ⟨Lexer.opened source, [], 0⟩ us where
  holds := ⟨us, h, rfl⟩
  suffix := hus ▸ List.suffix_rfl
  stops := nofun

/-- The definitions of a document with the token for its end, which is not asked for here. -/
def definitionsLanguage : Language Lexeme :=
  written Written.lexemes * ((written Written.lexemes)∗ * (only (symbol .finish) + 1))

/-- All definitions of a document, where the second document is not cut. Each of them was read by
the rule for definitions. -/
theorem tracks_definitions (hcut : ¬T.cut) :
    Tracks T k 1 (someUntil (skip .finish) definition) (someUntil (skip .finish) definition)
      definitionsLanguage (List.Forall₂ fun n n' => T.Alike n n' ∧
        ∃ us rest, 1 ≤ us.length ∧ Made T.first T.tokens us rest definition n) := by
  have hitem : Tracks T 0 1 definition definition (written Written.lexemes) fun n n' =>
      T.Alike n n' ∧ ∃ us rest, 1 ≤ us.length ∧ Made T.first T.tokens us rest definition n := by
    refine tracks_definition.made.weaken fun n n' h => ?_
    obtain ⟨h, us, rest, -, hlen, hmade⟩ := h
    exact ⟨h, us, rest, hlen, hmade⟩
  have hstop : Decides T (skip .finish) (only (symbol .finish) + 1) 1 := by
    intro α k last last' more more' S S' V _ _ hlast hmore
    refine (decides_skip .finish rfl (fun h => absurd h hcut) hlast hmore).lang
      (add_le_add (mul_le_mul' ?_ le_rfl) le_rfl)
    exact fun _ h => .inl h
  have h := tracks_someUntil (k := k) hstop hitem
  rwa [one_mul] at h

/-- All of a document behind the token for its start. -/
def body : Parse Node := do
  let definitions ← someUntil (skip .finish) definition
  node (.placed .start 0 0 []) .document [.children .definitions definitions]

theorem opens_body : Opens document body := opens_document

theorem tracks_body (hcut : ¬T.cut)
    (hstart : T.same (.placed .start 0 0 []) (.placed .start 0 0 [])) :
    Tracks T k 1 body body definitionsLanguage (T.Built Other) := by
  have h := (tracks_definitions (k := k) hcut).bind fun ns ns' hns =>
    tracks_node .document (p := Other) (Nat.succ_pos k) ⟨rfl, rfl⟩ hstart
      (.cons (T.paired_children .definitions (hns.imp fun _ _ h => h.1)) .nil)
  rwa [mul_one] at h

end Parse

end GraphSchema
