import GraphSchema.Proofs.Parser.Settled
import GraphSchema.Proofs.Token.Lossless

/-!
# Whole texts

What is read of a text does not depend on the room that its document has, as long as this is room
for one token for each of its code points, and not on what its parser remembers of a token before
the first one. Each error is at a place of the text, or the lexer of the text meets it.

## Main definitions

* `Parse.Opens`: a rule that takes the token for the start of a text first.

## Main statements

* `Parse.Opens.runOn_eq`: whole texts in documents with different room.
* `Parse.Opens.isOf`: the errors of whole texts.
-/

namespace GraphSchema

namespace Lexer

variable {source : Text} {l next : Lexer} {t : Token} {ts : List Token} {e : Option SyntaxError}

/-- The lexer of a text that has given the token for its start. -/
def opened (source : Text) : Lexer := ⟨⟨0, source⟩, true, false⟩

theorem reached_opened : Reached source (opened source) :=
  .token (t := some (.placed .start 0 0 [])) .start rfl

theorem Reached.start_le (hl : Reached source l) (h : l.next = .ok (some t) next) :
    t.start ≤ source.length := by
  cases steps_of_next h with
  | start => exact Nat.zero_le _
  | finish hs => exact (hl.in.skip_ignored hs).le
  | token hs ht =>
    have hspans := ((yields_token hl.in hs).ok ht).2.1
    exact hspans.start ▸ (hl.in.skip_ignored hs).le

theorem Gives.start_le (h : l.Gives ts e) (hl : Reached source l) :
    ∀ t ∈ ts, t.start ≤ source.length := by
  induction h with
  | done => simp
  | fail => simp
  | token h rest ih => exact List.forall_mem_cons.2 ⟨hl.start_le h, ih (hl.token h)⟩

/-- The lexer of a text meets the error that stands behind its tokens. -/
theorem Gives.isOf (h : l.Gives ts e) (hl : Reached source l) : ∀ f ∈ e, f.IsOf source := by
  induction h with
  | done => simp
  | fail h =>
    rintro f ⟨⟩
    exact .inr ⟨_, _, hl, h⟩
  | token h rest ih => exact ih (hl.token h)

end Lexer

namespace Parse

open Lexer (opened)

variable {α : Type} {source : Text} {ts : List Token} {v : Views}

/-- Behind the token for the start of a text. -/
theorem live_opened (h : (opened source).Gives ts v.failure) (hv : v.first.source = source) :
    v.Live ts where
  within := hv ▸ h.start_le Lexer.reached_opened
  finish hf := by
    rw [hf] at h
    obtain ⟨inner, last, rfl, -, hk, -⟩ := (Lexer.Gives.covers h (Place.in_start source)).shape
    exact ⟨last, by simp, hk⟩
  failure := hv ▸ h.isOf Lexer.reached_opened

/-- The rule takes the token for the start of a text, whatever token its parser has taken before,
and goes on with a rule that is steady. -/
structure Opens (r tail : Parse α) : Prop where
  start : ∀ source d k,
    r d { Parser.ofText source with lastStop := k } = tail d ⟨opened source, [], 0⟩
  steady : ∀ v ts, Views.Live v ts → ts.length < v.room → SteadyAt v ts tail tail fun _ _ => True

theorem runOn_congr {r r' : Parse α} {d d' : Parser.Document} {p p' : Parser}
    (h : r d p = r' d' p') : r.runOn d p = r'.runOn d' p' := by
  simp only [runOn, h]

theorem runOn_fst_eq_ok {r : Parse α} {d : Parser.Document} {p : Parser} {a : α} :
    (r.runOn d p).1 = .ok a ↔ ∃ q, r d p = .ok a q := by
  unfold runOn
  cases r d p <;> simp

theorem runOn_fst_eq_error {r : Parse α} {d : Parser.Document} {p : Parser} {e : SyntaxError} :
    (r.runOn d p).1 = .error e ↔ ∃ q, r d p = .error e q := by
  unfold runOn
  cases r d p <;> simp

theorem run_eq_error {r : Parse α} {d : Parser.Document} {e : SyntaxError}
    (h : r.run d = .error e) : ∃ q, r d (.ofText d.source) = .error e q :=
  runOn_fst_eq_error.1 h

namespace Opens

variable {r tail : Parse α} {d : Parser.Document} {n k : Nat}

/-- What the rule does in two documents with one text. -/
theorem exists_steadyAt (h : Opens r tail) (hd : d.source.length ≤ d.length)
    (hn : d.source.length ≤ n) :
    ∃ v ts, v.first = d ∧ v.length = n ∧ SteadyAt v ts tail tail (fun _ _ => True) ∧
      Parser.HoldsUntil ⟨opened d.source, [], 0⟩ v.failure ts := by
  -- The text has no more tokens than either document has room for.
  obtain ⟨ts, e, hg⟩ := Lexer.exists_gives (opened d.source)
  have hl : ts.length < (⟨d, n, e⟩ : Views).room := by
    have := hg.length_le
    simp only [Lexer.bound, opened, Bool.false_eq_true, if_false, if_true] at this
    simp only [Views.room, Views.second, Parser.Document.budget]
    omega
  exact ⟨⟨d, n, e⟩, ts, rfl, rfl, h.steady _ ts (live_opened hg rfl) hl, ts, hg, rfl⟩

/-- What is read of a text does not depend on the room for it, nor on a token before the first. -/
theorem runOn_eq (h : Opens r tail) (hd : d.source.length ≤ d.length)
    (hn : d.source.length ≤ n) :
    (r.runOn { d with length := n } { Parser.ofText d.source with lastStop := k }).1 =
      r.run d := by
  obtain ⟨v, ts, rfl, rfl, hs, hp⟩ := h.exists_steadyAt hd hn
  have hfirst := h.start v.first.source v.first 0
  have hsecond := h.start v.first.source v.second k
  have hsame := (hsecond.trans (hs.same hp)).trans hfirst.symm
  exact congrArg Prod.fst (runOn_congr hsame)

/-- What is read of a text, in terms of what is read behind the token for its start. -/
theorem run_eq (h : Opens r tail) (hd : d.source.length ≤ d.length) (hn : d.source.length ≤ n) :
    (tail.runOn { d with length := n } ⟨opened d.source, [], 0⟩).1 = r.run d := by
  rw [← h.runOn_eq hd hn (k := 0)]
  exact (congrArg Prod.fst (runOn_congr (h.start d.source { d with length := n } 0))).symm

/-- The errors of a text. -/
theorem isOf (h : Opens r tail) (hd : d.source.length ≤ d.length) {e : SyntaxError}
    (he : r.run d = .error e) : e.IsOf d.source := by
  obtain ⟨v, ts, rfl, -, hs, hp⟩ := h.exists_steadyAt hd hd
  obtain ⟨q, hq⟩ := run_eq_error he
  exact hs.error hp ((h.start v.first.source v.first 0).symm.trans hq)

end Opens

/-! ## The rules for whole texts -/

/-- Up to the end of a text, which no item takes. -/
theorem steadyAt_allUntil_finish {item : Parse α} (hi : Settled v 1 item) (hts : v.Live ts)
    (hl : ts.length < v.room) :
    SteadyAt v ts (allUntil (skip .finish) item) (allUntil (skip .finish) item)
      fun _ _ => True := by
  refine SteadyAt.read_bind ?_
  refine steadyAt_itemsUntil (S := fun _ _ => True) (fun _ _ => trivial) (fun ts hts => ?_) hi
    room_le.1 room_le.2 hts hl
  refine (steadyAt_skip hts .finish).conseq fun b rest hrest => ?_
  cases b with
  | true => trivial
  | false =>
    obtain rfl : rest = ts := hrest
    exact ⟨hts, Nat.le_refl _⟩

theorem opens_document :
    Opens document (someUntil (skip .finish) definition >>= fun definitions =>
      node (.placed .start 0 0 []) .document [.children .definitions definitions]) where
  start source d k := rfl
  steady v ts hts hl := by
    have hsome : SteadyAt v ts (someUntil (skip .finish) definition)
        (someUntil (skip .finish) definition) fun _ _ => True := by
      refine (settled_definition ts hts hl).bind fun _ rest hrest => ?_
      obtain ⟨hrest, hle⟩ := hrest
      exact (steadyAt_allUntil_finish settled_definition hrest (by omega)).bind
        fun _ _ _ => steadyAt_pure trivial
    exact hsome.bind fun _ _ _ => steadyAt_node.conseq fun _ _ _ => trivial

theorem opens_lone {rule : Parse α} (hr : ∀ v, Settled v 0 rule) :
    Opens (lone rule) (rule >>= fun a => expect .finish >>= fun _ => pure a) where
  start source d k := rfl
  steady v ts hts hl := by
    refine (hr v ts hts hl).bind fun a rest hrest => ?_
    exact (steadyAt_expect hrest.1 .finish).bind fun _ _ _ => steadyAt_pure trivial

end Parse

namespace Parser.Document

variable {d : Document}

/-- A document with room for its text. -/
theorem parse_eq (hd : d.source.length ≤ d.length) {n k : Nat} (hn : d.source.length ≤ n) :
    (Parse.document.runOn { d with length := n }
      { Parser.ofText d.source with lastStop := k }).1 = d.parse :=
  Parse.opens_document.runOn_eq hd hn

theorem isOf_of_parse (hd : d.source.length ≤ d.length) {e : SyntaxError}
    (h : d.parse = .error e) : e.IsOf d.source :=
  Parse.opens_document.isOf hd h

theorem isOf_of_parseValue (hd : d.source.length ≤ d.length) {e : SyntaxError}
    (h : d.parseValue = .error e) : e.IsOf d.source :=
  (Parse.opens_lone fun _ => Parse.settled_value.mono (Nat.zero_le _)).isOf hd h

theorem isOf_of_parseType (hd : d.source.length ≤ d.length) {e : SyntaxError}
    (h : d.parseType = .error e) : e.IsOf d.source :=
  (Parse.opens_lone fun _ => Parse.settled_typeReference.mono (Nat.zero_le _)).isOf hd h

end Parser.Document

end GraphSchema
