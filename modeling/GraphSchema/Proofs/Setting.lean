import GraphSchema.Proofs.Check.Mirror.Schema
import GraphSchema.Proofs.Parser.Setting
import GraphSchema.Proofs.Validation

/-!
# Texts under several settings

A text can be read with a name or without one, and with or without places for its nodes. This has an
effect on the places of nodes, and on nothing else: the same texts can be read, with the same nodes
but for places, and validation finds the same problems but for places.

## Main definitions

* `Parser.Setting.Agrees`: what is read under two settings.
* `Validation.Alike`: what comes of two validations is the same but for places.
* `Parser.Setting.Interchangeable`: it makes no other difference under which of two settings a text
  is read and validated.

## Main statements

* `Validation.alike_ofNode`: the validation of documents that are the same but for places.
* `Parser.Setting.interchangeable`: every text under every two settings.
-/

namespace GraphSchema

/-! ## Reading -/

namespace Parser.Setting

variable {s t : Setting} {n : Node}

theorem unplaced_mark (s : Setting) (i : Metadata) : (s.mark i).unplaced = i.unplaced := by
  unfold mark
  split <;> rfl

theorem mark_eq_unplaced (h : ¬s.located) : s.mark = Metadata.unplaced :=
  funext fun _ => if_neg h

/-- With places, only the name of the document depends on the setting. -/
theorem unnamed_mark (h : s.located) (i : Metadata) : (s.mark i).unnamed = i.unnamed := by
  rw [mark, if_pos h]
  simp [Metadata.unnamed, Function.comp_def]

/-- Mapping the metadata of a node under a setting can make up for the setting. -/
theorem relabel_node {f : Metadata → Metadata} (h : ∀ i, f (s.mark i) = f i) (n : Node) :
    (s.node n).relabel f = n.relabel f := by
  rw [node, Node.relabel_relabel]
  exact congrArg (fun g => n.relabel g) (funext h)

/-- What is read under two settings: the same error, or nodes that are the same but for places.
Without places no node has one, and with places these differ in the name of the document only. -/
inductive Agrees (s t : Setting) : Except SyntaxError Node → Except SyntaxError Node → Prop
  | error (e : SyntaxError) : Agrees s t (.error e) (.error e)
  | ok {m n : Node} (same : m.relabel Metadata.unplaced = n.relabel Metadata.unplaced)
    (left : ¬s.located → m.Unplaced) (right : ¬t.located → n.Unplaced)
    (both : s.located → t.located → m.relabel Metadata.unnamed = n.relabel Metadata.unnamed) :
    Agrees s t (.ok m) (.ok n)

theorem unplaced_node (h : ¬s.located) (n : Node) : (s.node n).Unplaced := by
  rw [node, mark_eq_unplaced h]
  exact n.unplaced_relabel

/-- What follows from what is read without a name and with all places. -/
theorem agrees_map (s t : Setting) (r : Except SyntaxError Node) :
    Agrees s t (r.map s.node) (r.map t.node) := by
  cases r with
  | error e => exact .error e
  | ok n =>
    refine .ok ?_ (fun hs => unplaced_node hs n) (fun ht => unplaced_node ht n) fun hs ht => ?_
    · rw [relabel_node s.unplaced_mark, relabel_node t.unplaced_mark]
    · rw [relabel_node (unnamed_mark hs), relabel_node (unnamed_mark ht)]

end Parser.Setting

/-! ## Validation -/

namespace Validation

/-- What comes of two validations is the same but for places. -/
inductive Alike : Validation → Validation → Prop
  | valid {r q : Registry} {calls calls' : List Call}
    (registries : r.relabel Metadata.unplaced = q.relabel Metadata.unplaced)
    (hcalls : calls.map (Call.relabel Metadata.unplaced) =
      calls'.map (Call.relabel Metadata.unplaced)) :
    Alike (.valid r calls) (.valid q calls')
  | problems {ps qs : List Problem} {calls calls' : List Call}
    (found : List.Forall₂ Problem.Alike ps qs)
    (hcalls : calls.map (Call.relabel Metadata.unplaced) =
      calls'.map (Call.relabel Metadata.unplaced)) :
    Alike (.problems ps calls) (.problems qs calls')
  | unreadable (e : SyntaxError) : Alike (.unreadable e) (.unreadable e)
  | failed (e : Failure) : Alike (.failed e) (.failed e)

/-- What comes of a document whose declarations were added, from the check of its schema. -/
def ofCheck (registry : Registry) : Check → Validation
  | .error e => .failed e
  | .ok ⟨[], calls⟩ => .valid registry calls
  | .ok ⟨p :: ps, calls⟩ => .problems (p :: ps) calls

theorem ofNode_eq_ofCheck {document : Node} {w : Wiring}
    (h : (Registry.empty.addDocument document).2 = []) :
    ofNode document w =
      ofCheck (Schema.ofDocument document w).registry (Schema.ofDocument document w).check := by
  have hadded : Registry.empty.addDocument document =
      ((Schema.ofDocument document w).registry, []) := by
    rw [← h]
    rfl
  have hschema : Schema.mk (Schema.ofDocument document w).registry w =
      Schema.ofDocument document w := rfl
  rw [ofNode, hadded]
  dsimp only
  rw [hschema]
  rcases (Schema.ofDocument document w).check with e | ⟨_ | ⟨p, ps⟩, calls⟩ <;> rfl

theorem ofNode_eq_problems {document : Node} {w : Wiring} {p : Problem} {ps : List Problem}
    (h : (Registry.empty.addDocument document).2 = p :: ps) :
    ofNode document w = .problems (p :: ps) [] := by
  have hadded : Registry.empty.addDocument document =
      ((Schema.ofDocument document w).registry, p :: ps) := by
    rw [← h]
    rfl
  rw [ofNode, hadded]

variable {w : Wiring}

/-- Checks that do the same but for places. -/
theorem alike_ofCheck {r q : Registry} {c c' : Check}
    (hregistry : r.relabel Metadata.unplaced = q.relabel Metadata.unplaced)
    (hcheck : c.map (Report.relabel Metadata.unplaced) = c'.map (Report.relabel Metadata.unplaced))
    (hc : ∀ report, c = .ok report → report.IsWorded)
    (hc' : ∀ report, c' = .ok report → report.IsWorded) : Alike (ofCheck r c) (ofCheck q c') := by
  cases c with
  | error e =>
    cases c' with
    | error e' =>
      cases hcheck
      exact .failed e
    | ok report => cases hcheck
  | ok report =>
    cases c' with
    | error e => cases hcheck
    | ok report' =>
      obtain ⟨ps, calls⟩ := report
      obtain ⟨qs, calls'⟩ := report'
      obtain ⟨hproblems, hcalls⟩ := Report.mk.inj (Except.ok.inj hcheck)
      have hfound := Problem.forall₂_alike_of_map_eq (hc _ rfl) (hc' _ rfl) hproblems
      cases hfound with
      | nil => exact .valid hregistry hcalls
      | cons hp hps => exact .problems (.cons hp hps) hcalls

/-- Documents that are the same but for places. -/
theorem alike_ofNode {m n : Node}
    (hm : ∀ c ∈ m.childrenAt .definitions, c.WellTyped ∧ c.kind.isDeclaration)
    (hn : ∀ c ∈ n.childrenAt .definitions, c.WellTyped ∧ c.kind.isDeclaration)
    (hw : w.Blind Metadata.unplaced)
    (h : m.relabel Metadata.unplaced = n.relabel Metadata.unplaced) :
    Alike (ofNode m w) (ofNode n w) := by
  have hadded := Registry.empty.addDocument_relabel (f := Metadata.unplaced) m
  rw [h, Registry.addDocument_relabel, Prod.mk.injEq] at hadded
  obtain ⟨hregistry, hproblems⟩ := hadded
  have hfound : List.Forall₂ Problem.Alike (Registry.empty.addDocument m).2
      (Registry.empty.addDocument n).2 :=
    Problem.forall₂_alike_of_map_eq (fun p hp => Registry.isWorded_of_mem_addAll hm hp)
      (fun p hp => Registry.isWorded_of_mem_addAll hn hp) hproblems.symm
  generalize hps : (Registry.empty.addDocument m).2 = ps at hfound
  generalize hqs : (Registry.empty.addDocument n).2 = qs at hfound
  cases hfound with
  | nil =>
    have hmcheck := Schema.mirrors_check (s := .ofDocument m w) Metadata.unplaced_none
      (Registry.wellTyped_empty.addAll hm) hw
    have hncheck := Schema.mirrors_check (s := .ofDocument n w) Metadata.unplaced_none
      (Registry.wellTyped_empty.addAll hn) hw
    have hschema : (Schema.ofDocument n w).relabel Metadata.unplaced =
        (Schema.ofDocument m w).relabel Metadata.unplaced := congrArg (Schema.mk · w) hregistry
    rw [ofNode_eq_ofCheck hps, ofNode_eq_ofCheck hqs]
    refine alike_ofCheck hregistry.symm ?_ hmcheck.worded hncheck.worded
    rw [← hmcheck.same, ← hncheck.same, hschema]
  | cons hp hps' =>
    rw [ofNode_eq_problems hps, ofNode_eq_problems hqs]
    exact .problems (.cons hp hps') rfl

end Validation

namespace Parser.Setting

/-- It makes no difference but for places under which of two settings a text is read and
validated. -/
structure Interchangeable (source : Text) (s t : Setting) : Prop where
  document : Agrees s t (s.document source).parse (t.document source).parse
  value : Agrees s t (s.document source).parseValue (t.document source).parseValue
  type : Agrees s t (s.document source).parseType (t.document source).parseType
  /-- Scalars and coercers from outside could look at places themselves. -/
  validation : ∀ w : Wiring, w.Blind Metadata.unplaced →
    Validation.Alike (.ofDocument (s.document source) w) (.ofDocument (t.document source) w)

theorem alike_ofDocument {source : Text} {w : Wiring} (hw : w.Blind Metadata.unplaced)
    (h : Agrees s t (s.document source).parse (t.document source).parse) :
    Validation.Alike (.ofDocument (s.document source) w) (.ofDocument (t.document source) w) := by
  unfold Validation.ofDocument
  generalize hm : (s.document source).parse = m at h
  generalize hn : (t.document source).parse = n at h
  cases h with
  | error e => exact .unreadable e
  | ok same left right both =>
    exact Validation.alike_ofNode (Document.isDeclaration_of_parse hm)
      (Document.isDeclaration_of_parse hn) hw same

/-- Every text under every two settings. -/
theorem interchangeable (source : Text) (s t : Setting) : Interchangeable source s t := by
  have hplain : (Document.plain source).located := rfl
  have hdocument : Agrees s t (s.document source).parse (t.document source).parse := by
    rw [s.document_eq, t.document_eq, Document.parse_under hplain, Document.parse_under hplain]
    exact agrees_map s t _
  refine ⟨hdocument, ?_, ?_, fun w hw => alike_ofDocument hw hdocument⟩
  · rw [s.document_eq, t.document_eq, Document.parseValue_under hplain,
      Document.parseValue_under hplain]
    exact agrees_map s t _
  · rw [s.document_eq, t.document_eq, Document.parseType_under hplain,
      Document.parseType_under hplain]
    exact agrees_map s t _

/-- A scalar of the strings that a pattern accepts, and a coercer that takes small integers. -/
def ranged : Wiring where
  scalars := [("A", .ofPattern "A" "[a-z]+" .exact none)]
  coercers := [("a", [("y", .ranging "small" 0 9)])]

theorem blind_ranged : ranged.Blind Metadata.unplaced where
  scalars := by
    intro s hs
    obtain rfl := List.mem_singleton.1 hs
    exact Scalar.blind_ofPattern _ _ _ _
  coercers := by
    intro entry hentry c hc
    obtain rfl := List.mem_singleton.1 hentry
    obtain rfl := List.mem_singleton.1 hc
    exact Callback.blind_ranging _ _ _

/-- A text that the coercer turns down, with places in a document of some name, and without. -/
theorem interchangeable_ranged :
    let source : Text := "directive @a(x: A, y: Int) on SCALAR scalar A @a(x: \"b\", y: 12)"
    let s : Setting := ⟨some "c", true⟩
    let t : Setting := ⟨none, false⟩
    ranged.Blind Metadata.unplaced ∧
      Validation.Alike (.ofDocument (s.document source) ranged)
        (.ofDocument (t.document source) ranged) :=
  ⟨blind_ranged, (interchangeable _ _ _).validation ranged blind_ranged⟩

end Parser.Setting

end GraphSchema
