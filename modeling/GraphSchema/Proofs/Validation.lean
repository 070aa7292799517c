import GraphSchema.Proofs.Check.Fault
import GraphSchema.Proofs.Parser.Whole
import GraphSchema.Proofs.Registry.First
import GraphSchema.Validation

/-!
# Validation without failures

The validation of a text ends with a registry, with a syntax error, or with problems, if scalars and
coercers only turn literals down. No step on the way fails: the loops of the parser end by
themselves, no token is asked for what it would tell before there is one, what was read is added to
a registry or was declared before, and the checks come to an end.

## Main definitions

* `Schema.ofDocument`: the schema of a document that was read.
* `Validation.Ends`: how the validation of a text may end.
* `Validation.Settles`: the validation of a text ends so, and no step on the way fails.

## Main statements

* `Registry.add_of_parse`: adding one after the other what was read.
* `Schema.exists_check_eq_ok`: checking what was read.
* `Validation.settles_ofText`: every text.
-/

namespace GraphSchema

namespace Parse

/-- A parser that asks for a token has one, unless it fails. -/
theorem window_ne_nil {d : Parser.Document} {p q : Parser} (h : extend 1 d p = .ok () q) :
    q.window ≠ [] := by
  rw [extend] at h
  obtain ⟨t, q', -, hq⟩ := bind_eq_ok.1 h
  cases t with
  | none =>
    change (if q'.window.isEmpty then failAtEnd else pure () : Parse Unit) d q' = _ at hq
    split at hq
    · cases hq
    · rename_i hne
      cases hq
      simpa using hne
  | some t =>
    cases hq
    simp

end Parse

/-- The lines of a document have beginnings, so that every offset has an address. -/
theorem Parser.Document.isSome_address? (source : Text) (name : Option Text) (located : Bool)
    (offset : Int) :
    (Source.address? (ofText source name located).starts offset).isSome := by
  simp [ofText, Source.address?, Source.index, Source.lineStarts]

/-- The schema of a document that was read. -/
def Schema.ofDocument (document : Node) (w : Wiring) : Schema :=
  ⟨(Registry.empty.addDocument document).1, w⟩

section Document

variable {source : Text} {name : Option Text} {located : Bool} {document : Node}

theorem Registry.isItem_of_parse
    (h : (Parser.Document.ofText source name located).parse = .ok document) :
    ∀ n ∈ document.childrenAt .definitions, IsItem n := by
  intro n hn
  obtain ⟨hwell, hk⟩ := Parser.Document.isDeclaration_of_parse h n hn
  exact isItem_of_wellTyped hwell hk

/-- What was read is added to what stands in front of it, or refused because of it. -/
theorem Registry.add_of_parse
    (h : (Parser.Document.ofText source name located).parse = .ok document)
    {before after : List Node} {n : Node}
    (hn : document.childrenAt .definitions = before ++ n :: after) :
    (∃ q, (empty.addAll before).1.add n = .ok q) ∨
      ∃ m, firstLike? before n = some m ∧
        (empty.addAll before).1.add n = .error (.problem (redefinition n m)) := by
  have hitems := isItem_of_parse h
  rw [hn, List.forall_mem_append, List.forall_mem_cons] at hitems
  obtain ⟨hbefore, hitem, -⟩ := hitems
  obtain ⟨hrefused, hadded⟩ := (keeps_addAll hbefore).add hitem
  cases hlike : firstLike? before n with
  | none =>
    obtain ⟨q, hq, -⟩ := hadded hlike
    exact .inl ⟨q, hq⟩
  | some m => exact .inr ⟨m, rfl, hrefused m hlike⟩

/-- The checks of what was read come to an end. -/
theorem Schema.exists_check_eq_ok
    (h : (Parser.Document.ofText source name located).parse = .ok document) {w : Wiring}
    (hs : w.ScalarsReject) (hc : w.CoercersReject) :
    ∃ report, (ofDocument document w).check = .ok report := by
  have hr : (Registry.empty.addDocument document).1.OfDocument :=
    ⟨source, name, located, document, h, rfl⟩
  exact (counts_check_fault (s := ofDocument document w)
    (T := w.ScalarsReject ∧ w.CoercersReject) hr.wellTyped id .undeclared).total ⟨hs, hc⟩

end Document

namespace Validation

/-- How the validation of a text may end: it is a syntax error, or something is declared twice, or
the checks find something, or the registry is given back. -/
inductive Ends (d : Parser.Document) (w : Wiring) : Validation → Prop
  | unreadable {e : SyntaxError} (h : d.parse = .error e) : Ends d w (.unreadable e)
  | refused {document : Node} {p : Problem} {ps : List Problem} (h : d.parse = .ok document)
      (hrefused : (Registry.empty.addDocument document).2 = p :: ps) :
      Ends d w (.problems (p :: ps) [])
  | found {document : Node} {p : Problem} {ps : List Problem} {calls : List Call}
      (h : d.parse = .ok document) (hadded : (Registry.empty.addDocument document).2 = [])
      (hcheck : (Schema.ofDocument document w).check = .ok ⟨p :: ps, calls⟩) :
      Ends d w (.problems (p :: ps) calls)
  | valid {document : Node} {calls : List Call} (h : d.parse = .ok document)
      (hadded : (Registry.empty.addDocument document).2 = [])
      (hcheck : (Schema.ofDocument document w).check = .ok ⟨[], calls⟩) :
      Ends d w (.valid (Schema.ofDocument document w).registry calls)

/-- The validation of a text ends, and no step on the way fails. -/
structure Settles (d : Parser.Document) (w : Wiring) : Prop where
  ends : Ends d w (ofDocument d w)
  /-- No loop of the parser runs out of room, and nothing depends on a token before the first. -/
  room : ∀ n k, d.source.length ≤ n →
    (Parse.document.runOn { d with length := n }
      { Parser.ofText d.source with lastStop := k }).1 = d.parse
  /-- The window of the parser is not empty where a token is taken from it. -/
  window : ∀ p q : Parser, Parse.extend 1 d p = .ok () q → q.window ≠ []
  address : ∀ offset : Int, (Source.address? d.starts offset).isSome
  added : ∀ document, d.parse = .ok document → ∀ before n after,
    document.childrenAt .definitions = before ++ n :: after →
      (∃ q, (Registry.empty.addAll before).1.add n = .ok q) ∨
        ∃ m, Registry.firstLike? before n = some m ∧
          (Registry.empty.addAll before).1.add n = .error (.problem (Registry.redefinition n m))
  checked : ∀ document, d.parse = .ok document →
    ∃ report, (Schema.ofDocument document w).check = .ok report

/-- A document that was read and whose checks come to an end. -/
theorem ends_ofNode {d : Parser.Document} {document : Node} {w : Wiring}
    (hparse : d.parse = .ok document)
    (h : ∃ report, (Schema.ofDocument document w).check = .ok report) :
    Ends d w (ofNode document w) := by
  obtain ⟨⟨found, calls⟩, hcheck⟩ := h
  unfold ofNode
  split
  · rename_i registry hadded
    have hregistry : (Schema.ofDocument document w).registry = registry := congrArg Prod.fst hadded
    have hschema : Schema.ofDocument document w = ⟨registry, w⟩ := by rw [← hregistry]; rfl
    rw [← hschema, hcheck]
    cases found with
    | nil => exact hregistry ▸ .valid hparse (congrArg Prod.snd hadded) hcheck
    | cons p ps => exact .found hparse (congrArg Prod.snd hadded) hcheck
  · rename_i registry problems hne hadded
    obtain ⟨p, ps, rfl⟩ := List.exists_cons_of_ne_nil hne
    exact .refused hparse (congrArg Prod.snd hadded)

theorem ends_ofDocument {d : Parser.Document} {w : Wiring}
    (h : ∀ document, d.parse = .ok document →
      ∃ report, (Schema.ofDocument document w).check = .ok report) :
    Ends d w (ofDocument d w) := by
  unfold ofDocument
  split
  · exact ends_ofNode ‹_› (h _ ‹_›)
  · exact .unreadable ‹_›

/-- With scalars and coercers that only turn literals down, the validation of every text ends with a
registry, a syntax error or problems. -/
theorem settles_ofText (source : Text) (name : Option Text) (located : Bool) {w : Wiring}
    (hs : w.ScalarsReject) (hc : w.CoercersReject) : Settles (.ofText source name located) w where
  ends := ends_ofDocument fun _ h => Schema.exists_check_eq_ok h hs hc
  room _ _ hn := Parser.Document.parse_eq (Nat.le_refl _) hn
  window _ _ := Parse.window_ne_nil
  address := Parser.Document.isSome_address? source name located
  added _ h _ _ _ := Registry.add_of_parse h
  checked _ h := Schema.exists_check_eq_ok h hs hc

/-- A scalar that takes every literal, and a coercer that turns every literal down. -/
def rejecting : Wiring where
  scalars := [("A", .ofCallback "A" (.accepting "take") none)]
  coercers := [("a", [("x", .refusing "refuse" (.badValue "no"))])]

/-- A text whose only argument is given to the coercer. -/
theorem settles_ofText_rejecting :
    rejecting.ScalarsReject ∧ rejecting.CoercersReject ∧
      Settles (.ofText "directive @a(x: A) on SCALAR scalar A @a(x: 1)" none true) rejecting := by
  have hs : rejecting.ScalarsReject := by
    intro s hs v _ f hf
    obtain rfl := List.mem_singleton.1 hs
    cases hf
  have hc : rejecting.CoercersReject := by
    intro entry hentry c hcoercer v _ f hf
    obtain rfl := List.mem_singleton.1 hentry
    obtain rfl := List.mem_singleton.1 hcoercer
    cases hf
    rfl
  exact ⟨hs, hc, settles_ofText _ none true hs hc⟩

end Validation

end GraphSchema
