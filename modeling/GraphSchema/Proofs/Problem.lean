import GraphSchema.Problem
import GraphSchema.Proofs.Node.Unplaced

/-!
# Problems without places

The wording of a problem shows places of nodes behind their names, and texts besides. Without the
places of its nodes a problem has the same wording but for these positions.

## Main definitions

* `Problem.relabel`: a problem with nodes with other metadata.
* `Problem.position`: a place as wordings show it.
* `Text.Sheds`: a text is left if some positions are taken from another one.
* `Problem.IsWorded`: all that the wording of a problem shows besides places are texts.
* `Problem.Alike`: two problems differ in nothing but places.

## Main statements

* `Problem.IsWorded.sheds`: the wording of a problem without places.
* `Problem.alike_of_relabel_eq`, `Problem.forall₂_alike_of_map_eq`: problems that are the same
  without places.
-/

namespace GraphSchema

namespace Problem

variable {f : Metadata → Metadata} {p q : Problem}

/-- A problem with nodes with other metadata. -/
def relabel (f : Metadata → Metadata) : Problem → Problem
  | general message node element =>
    general (message.relabel f) (node.map (Node.relabel f)) (element.relabel f)
  | typeRedefinition node existing =>
    typeRedefinition (node.map (Node.relabel f)) (existing.map (Node.relabel f))
  | directiveRedefinition node existing =>
    directiveRedefinition (node.relabel f) (existing.relabel f)
  | schemaRedefinition node existing =>
    schemaRedefinition (node.map (Node.relabel f)) (existing.map (Node.relabel f))
  | undeclaredDirective node element directive =>
    undeclaredDirective (node.map (Node.relabel f)) (element.relabel f) (directive.relabel f)
  | illegalLocation node element directive location =>
    illegalLocation (node.map (Node.relabel f)) (element.relabel f) (directive.relabel f)
      (location.relabel f)
  | unknownArgument node element directive argument =>
    unknownArgument (node.map (Node.relabel f)) (element.relabel f) (directive.relabel f)
      (argument.relabel f)
  | missingArgument node element directive argument =>
    missingArgument (node.map (Node.relabel f)) (element.relabel f) (directive.relabel f)
      (argument.relabel f)
  | illegalName node => illegalName (node.map (Node.relabel f))
  | missingType type node element =>
    missingType (type.relabel f) (node.map (Node.relabel f)) (element.relabel f)
  | notInputType reference definition =>
    notInputType (reference.relabel f) (definition.map (Node.relabel f))
  | selfReference definition argument =>
    selfReference (definition.relabel f) (argument.relabel f)
  | badValue mismatch node element directive argument detail value =>
    badValue mismatch (node.map (Node.relabel f)) (element.relabel f) (directive.relabel f)
      (argument.relabel f) (detail.relabel f) (value.relabel f)

/-- What the wording of a problem shows besides places. -/
def shown : Problem → List Data
  | general message _ _ => [message]
  | typeRedefinition node _ => [nameOf node]
  | directiveRedefinition node existing => [node.name, existing.name]
  | schemaRedefinition _ _ => []
  | undeclaredDirective _ element directive => [element, directive]
  | illegalLocation _ element directive location => [element, directive, location]
  | unknownArgument _ element directive argument => [element, directive, argument]
  | missingArgument _ element directive argument => [element, directive, argument]
  | illegalName node => [nameOf node]
  | missingType type _ element => [type, element]
  | notInputType reference _ => [reference.name]
  | selfReference definition argument => [definition.name, argument.name]
  | badValue _ _ element directive argument detail _ => [element, directive, argument, detail]

/-- All that the wording of a problem shows besides places are texts. -/
def IsWorded (p : Problem) : Prop := ∀ d ∈ p.shown, ∃ t, d = .text t

/-- Line and column as the wording of a problem shows them. -/
def position (line column : Int) : Text :=
  " [@" ++ Text.ofInt line ++ ":" ++ Text.ofInt column ++ "]"

theorem place_eq (n : Option Node) :
    place n =
      ((n.bind fun n => n.info.location).map fun l => position l.line l.column).getD [] := by
  rw [place]
  cases n.bind fun n => n.info.location <;> rfl

end Problem

/-- The second text is left if some positions are taken from the first one. -/
inductive Text.Sheds : Text → Text → Prop
  | nil : Sheds [] []
  | cons (c : CodePoint) {s t : Text} (h : Sheds s t) : Sheds (c :: s) (c :: t)
  | shed (line column : Int) {s t : Text} (h : Sheds s t) :
    Sheds (Problem.position line column ++ s) t

namespace Text.Sheds

variable {s t s' t' : Text}

theorem refl (s : Text) : Sheds s s := by
  induction s with
  | nil => exact nil
  | cons c s ih => exact cons c ih

theorem append (h : Sheds s t) (h' : Sheds s' t') : Sheds (s ++ s') (t ++ t') := by
  induction h with
  | nil => exact h'
  | cons c _ ih => exact cons c ih
  | shed line column _ ih =>
    rw [List.append_assoc]
    exact shed line column ih

/-- Behind a text that both have. -/
theorem add (h : Sheds s t) (more : Text) : Sheds (s ++ more) (t ++ more) := h.append (refl more)

end Text.Sheds

namespace Problem

open Text (Sheds)

variable {f : Metadata → Metadata} {p q : Problem}

/-! ## Wordings -/

/-- A node that may be unknown, without its place. -/
abbrev unplaced (n : Option Node) : Option Node := n.map (Node.relabel Metadata.unplaced)

theorem sheds_place (n : Option Node) : Sheds (place n) (place (unplaced n)) := by
  have hnone : place (unplaced n) = [] := by
    rw [place_eq]
    cases n <;> simp [Metadata.unplaced]
  rw [hnone, place_eq]
  cases n.bind fun n => n.info.location with
  | none => exact .nil
  | some l =>
    rw [← List.append_nil (Option.getD _ _)]
    exact .shed l.line l.column .nil

theorem sheds_placed (name : Data) (n : Option Node) :
    Sheds (placed name n) (placed name (unplaced n)) :=
  (Sheds.refl _).append (sheds_place n)

theorem nameOf_relabel (n : Option Node) :
    nameOf (n.map (Node.relabel f)) = (nameOf n).relabel f := by
  cases n with
  | none => exact (Data.relabel_atom _).symm
  | some n => exact n.name_relabel

theorem relabel_eq_of_text {d : Data} (h : ∃ t, d = .text t) : d.relabel f = d := by
  obtain ⟨t, rfl⟩ := h
  exact Data.relabel_atom _

/-- The wording of a problem without places. -/
theorem IsWorded.sheds (h : p.IsWorded) :
    ∃ s t, p.message = .text s ∧ (p.relabel Metadata.unplaced).message = .text t ∧ s.Sheds t := by
  have hsame : ∀ d ∈ p.shown, d.relabel Metadata.unplaced = d := fun d hd =>
    relabel_eq_of_text (h d hd)
  cases p with
  | general message node element =>
    obtain ⟨t, rfl⟩ := h message List.mem_cons_self
    exact ⟨t, t, rfl, relabel_eq_of_text ⟨t, rfl⟩, .refl t⟩
  | typeRedefinition node existing =>
    refine ⟨_, _, rfl, rfl, ?_⟩
    rw [nameOf_relabel, hsame _ List.mem_cons_self]
    exact ((((sheds_placed _ _).add _).add _).add _).append (sheds_place _)
  | directiveRedefinition node existing =>
    refine ⟨_, _, rfl, rfl, ?_⟩
    rw [Node.name_relabel, Node.name_relabel, hsame _ List.mem_cons_self,
      hsame _ (List.mem_cons_of_mem _ List.mem_cons_self)]
    exact ((sheds_placed _ (some node)).add _).append (sheds_placed _ (some existing))
  | schemaRedefinition node existing =>
    refine ⟨_, _, rfl, rfl, ?_⟩
    exact (((Sheds.refl _).append (sheds_place _)).add _).append (sheds_place _)
  | undeclaredDirective node element directive =>
    refine ⟨_, _, rfl, rfl, ?_⟩
    simp only [shown, List.forall_mem_cons] at hsame
    rw [hsame.1, hsame.2.1]
    exact ((sheds_placed _ _).add _).add _
  | illegalLocation node element directive location =>
    refine ⟨_, _, rfl, rfl, ?_⟩
    simp only [shown, List.forall_mem_cons] at hsame
    rw [hsame.1, hsame.2.1, hsame.2.2.1]
    exact (((((sheds_placed _ _).add _).add _).add _).add _).add _
  | unknownArgument node element directive argument =>
    refine ⟨_, _, rfl, rfl, ?_⟩
    simp only [shown, List.forall_mem_cons] at hsame
    rw [hsame.1, hsame.2.1, hsame.2.2.1]
    exact ((((sheds_placed _ _).add _).add _).add _).add _
  | missingArgument node element directive argument =>
    refine ⟨_, _, rfl, rfl, ?_⟩
    simp only [shown, List.forall_mem_cons] at hsame
    rw [hsame.1, hsame.2.1, hsame.2.2.1]
    exact ((((sheds_placed _ _).add _).add _).add _).add _
  | illegalName node =>
    refine ⟨_, _, rfl, rfl, ?_⟩
    rw [nameOf_relabel, hsame _ List.mem_cons_self]
    exact (sheds_placed _ _).add _
  | missingType type node element =>
    refine ⟨_, _, rfl, rfl, ?_⟩
    simp only [shown, List.forall_mem_cons] at hsame
    rw [hsame.1, hsame.2.1]
    exact (Sheds.refl _).append (sheds_placed _ _)
  | notInputType reference definition =>
    refine ⟨_, _, rfl, rfl, ?_⟩
    rw [Node.name_relabel, hsame _ List.mem_cons_self]
    exact (((Sheds.refl _).append (sheds_placed _ (some reference))).add _).append (sheds_place _)
  | selfReference definition argument =>
    refine ⟨_, _, rfl, rfl, ?_⟩
    rw [Node.name_relabel, Node.name_relabel, hsame _ List.mem_cons_self,
      hsame _ (List.mem_cons_of_mem _ List.mem_cons_self)]
    exact (Sheds.refl _).append (sheds_placed _ (some argument))
  | badValue mismatch node element directive argument detail value =>
    refine ⟨_, _, rfl, rfl, ?_⟩
    simp only [shown, List.forall_mem_cons] at hsame
    rw [hsame.1, hsame.2.1, hsame.2.2.1, hsame.2.2.2.1]
    exact ((((((sheds_placed _ _).add _).add _).add _).add _).add _).add _

/-- Two problems that are the same without places, and have the same wording without positions. -/
structure Alike (p q : Problem) : Prop where
  same : p.relabel Metadata.unplaced = q.relabel Metadata.unplaced
  message : ∃ s t m : Text, p.message = .text s ∧ q.message = .text t ∧ s.Sheds m ∧ t.Sheds m

theorem alike_of_relabel_eq (hp : p.IsWorded) (hq : q.IsWorded)
    (h : p.relabel Metadata.unplaced = q.relabel Metadata.unplaced) : Alike p q := by
  obtain ⟨s, m, hs, hm, hsm⟩ := hp.sheds
  obtain ⟨t, m', ht, hm', htm⟩ := hq.sheds
  rw [← h, hm] at hm'
  cases hm'
  exact ⟨h, s, t, m, hs, ht, hsm, htm⟩

/-- Problems in one order that are the same without places. -/
theorem forall₂_alike_of_map_eq {ps qs : List Problem} (hps : ∀ p ∈ ps, p.IsWorded)
    (hqs : ∀ q ∈ qs, q.IsWorded)
    (h : ps.map (relabel Metadata.unplaced) = qs.map (relabel Metadata.unplaced)) :
    List.Forall₂ Alike ps qs := by
  induction ps generalizing qs with
  | nil =>
    rw [List.map_nil] at h
    rw [List.map_eq_nil_iff.1 h.symm]
    exact .nil
  | cons p ps ih =>
    obtain ⟨q, qs, rfl, hq, hrest⟩ := List.map_eq_cons_iff.1 h.symm
    rw [List.forall_mem_cons] at hps hqs
    exact .cons (alike_of_relabel_eq hps.1 hqs.1 hq.symm) (ih hps.2 hqs.2 hrest.symm)

end Problem

end GraphSchema
