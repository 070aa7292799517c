import GraphSchema.Proofs.Grammar.WellTyped
import GraphSchema.Proofs.Table
import GraphSchema.Registry

/-!
# Well-typed registries

A registry to which only well-typed declarations were added holds nothing else, and each of them
stands where its kind and its name belong. All registries that are built from documents are so.

## Main definitions

* `Registry.Entry`: what is known of a node under a name.
* `Registry.WellTyped`: what a registry holds is well typed.
* `Registry.Takes`: what a registry becomes when it takes a declaration.
* `Registry.OfDocument`: the registries that are built from documents.

## Main statements

* `Registry.place_eq_ok_iff`: which declarations are taken.
* `Registry.wellTyped_empty`, `Registry.WellTyped.addAll`: the registries that are well typed.
* `Registry.OfDocument.wellTyped`: registries that are built from documents.
-/

namespace GraphSchema

namespace Registry

open Node

/-- What is known of a node under a name. -/
structure Entry (name : Atom) (n : Node) (k : Kind) : Prop where
  wellTyped : n.WellTyped
  key : n.key = .ok name
  kind : n.kind = k

/-- What a registry holds is well typed and stands where its kind and name belong. -/
structure WellTyped (r : Registry) : Prop where
  types : ∀ e ∈ r.types, ∃ k, k ≠ .scalar ∧ Entry e.1 e.2 (.typeDefinition k)
  scalars : ∀ e ∈ r.scalars, Entry e.1 e.2 (.typeDefinition .scalar)
  directives : ∀ e ∈ r.directives, Entry e.1 e.2 .directiveDefinition
  extensions : ∀ k, ∀ e ∈ r.extensions k, ∀ n ∈ e.2, Entry e.1 n (.typeExtension k)
  schema : ∀ n ∈ r.schema, n.WellTyped ∧ n.kind = .schemaDefinition
  schemaExtensions : ∀ n ∈ r.schemaExtensions, n.WellTyped ∧ n.kind = .schemaExtension
  definitions : ∀ n ∈ r.definitions, n.WellTyped ∧ n.kind.isDeclaration

/-- What a name stands for is a definition of a type of that name. -/
theorem WellTyped.type? {r : Registry} (h : r.WellTyped) {name : Atom} {n : Node}
    (hn : r.type? name = some n) : ∃ k, Entry name n (.typeDefinition k) := by
  unfold Registry.type? at hn
  split at hn
  · rename_i m hm
    cases hn
    obtain ⟨k, -, hk⟩ := h.types _ (Table.mem_of_get? hm)
    exact ⟨k, hk⟩
  · exact ⟨_, h.scalars _ (Table.mem_of_get? hn)⟩

theorem WellTyped.directive? {r : Registry} (h : r.WellTyped) {name : Atom} {n : Node}
    (hn : r.directive? name = some n) : Entry name n .directiveDefinition :=
  h.directives _ (Table.mem_of_get? hn)

/-! ## What is always there -/

theorem entry_definition (s : Scalar) :
    Entry (.text s.name) s.definition (.typeDefinition .scalar) where
  wellTyped := by
    have hrest : List.Forall₂ (Slot.Fits (.typeDefinition .scalar))
        [.datum .name (.text s.name), .children .directives []]
        [Kind.named, (.directives, .children)] :=
      .cons (Slot.fits_text rfl) (.cons (Slot.fits_children (by simp)) .nil)
    cases h : s.description with
    | none =>
      rw [Scalar.definition, h]
      exact wellTyped_mk (.cons Slot.fits_undescribed hrest)
    | some t =>
      rw [Scalar.definition, h]
      refine wellTyped_mk (.cons (Slot.fits_description rfl ?_) hrest)
      exact wellTyped_mk (.cons (Slot.fits_text rfl) (.cons (Slot.fits_truth rfl) .nil))
  key := by
    rw [Scalar.definition]
    cases s.description <;> rfl
  kind := rfl

theorem ofString_ofList (l : List Char) :
    Text.ofString (String.ofList l) = l.map CodePoint.ofChar := by
  rw [Text.ofString, String.toList_ofList]

/-- The declarations in a text; none if it cannot be read. -/
def declarations (source : Text) : List Node :=
  match (Parser.Document.ofText source (some builtinDirectivesName) true).parse with
  | .ok document => document.childrenAt .definitions
  | .error _ => []

theorem wellTyped_of_mem_declarations {source : Text} {n : Node} (h : n ∈ declarations source) :
    n.WellTyped := by
  unfold declarations at h
  split at h
  · exact (Parser.Document.isDeclaration_of_parse ‹_› n h).1
  · cases h

set_option maxRecDepth 10000 in
/-- The text must become a list of characters before it is read: a string cannot be computed with
in reasonable time. -/
theorem all_kind_builtinDirectives :
    (declarations builtinDirectivesText).all (fun n => n.kind = .directiveDefinition) = true := by
  have h : builtinDirectivesText = _ := ofString_ofList _
  rw [h]
  decide +kernel

theorem entry_builtinDirectives {e : Atom × Node} (h : e ∈ builtinDirectives.filterMap named?) :
    Entry e.1 e.2 .directiveDefinition := by
  obtain ⟨n, hn, he⟩ := List.mem_filterMap.1 h
  have hn : n ∈ declarations builtinDirectivesText := hn
  have hkind := List.all_eq_true.1 all_kind_builtinDirectives n hn
  unfold named? at he
  cases hkey : n.key with
  | error f => rw [hkey] at he; cases he
  | ok name =>
    rw [hkey] at he
    cases he
    exact ⟨wellTyped_of_mem_declarations hn, hkey, of_decide_eq_true hkind⟩

theorem wellTyped_empty : empty.WellTyped where
  types := by simp [empty]
  scalars := by
    intro e he
    obtain ⟨s, -, rfl⟩ := List.mem_map.1 he
    exact entry_definition s
  directives := fun e he => entry_builtinDirectives he
  extensions := by simp [empty]
  schema := by simp [empty]
  schemaExtensions := by simp [empty]
  definitions := by simp [empty]

/-! ## Declarations -/

section Add

variable {r q : Registry} {n : Node}

theorem WellTyped.putType (h : r.WellTyped) {name : Atom} {k : TypeKind}
    (hn : Entry name n (.typeDefinition k)) : (r.putType name n).WellTyped := by
  unfold Registry.putType
  by_cases hk : k = .scalar
  · subst hk
    rw [if_pos hn.kind]
    refine { h with scalars := fun e he => ?_ }
    rcases Table.mem_of_mem_put he with rfl | he
    · exact hn
    · exact h.scalars e he
  · rw [if_neg (by rw [hn.kind]; simpa using hk)]
    refine { h with types := fun e he => ?_, scalars := fun e he => ?_ }
    · rcases Table.mem_of_mem_put he with rfl | he
      · exact ⟨k, hk, hn⟩
      · exact h.types e he
    · exact h.scalars e (Table.mem_of_mem_erase he)

theorem WellTyped.addExtension (h : r.WellTyped) {name : Atom} {k : TypeKind}
    (hn : Entry name n (.typeExtension k)) : (r.addExtension k name n).WellTyped := by
  refine { h with extensions := fun l e he m hm => ?_ }
  simp only [Registry.addExtension] at he
  split at he
  · subst l
    rcases Table.mem_of_mem_put he with rfl | he
    · rcases List.mem_append.1 hm with hm | hm
      · cases hget : (r.extensions k).get? name with
        | none => rw [hget] at hm; cases hm
        | some ns =>
          rw [hget] at hm
          exact h.extensions k _ (Table.mem_of_get? hget) m hm
      · rw [List.mem_singleton.1 hm]
        exact hn
    · exact h.extensions k e he m hm
  · exact h.extensions l e he m hm

theorem place_of_name {name : Atom} {f : Atom → Except Refusal Registry} (hn : n.key = .ok name) :
    (nameOf n >>= f) = f name := by
  rw [nameOf, hn]
  rfl

/-- The name under which a declaration is added is its own. -/
theorem exists_name {f : Atom → Except Refusal Registry} (h : (nameOf n >>= f) = .ok q) :
    ∃ name, n.key = .ok name ∧ f name = .ok q := by
  cases hkey : n.key with
  | ok name => exact ⟨name, rfl, by rwa [place_of_name hkey] at h⟩
  | error e =>
    rw [nameOf, hkey] at h
    cases h

/-- What a registry becomes when it takes a declaration into its tables. -/
inductive Takes (r : Registry) (n : Node) : Registry → Prop
  | type {name : Atom} (kind : (∃ k, n.kind = .typeDefinition k) ∨ n.kind = .bare .typeDefinition)
      (key : n.key = .ok name) (fresh : name ∉ r.declaredTypes) : Takes r n (r.putType name n)
  | directive {name : Atom} (kind : n.kind = .directiveDefinition) (key : n.key = .ok name)
      (fresh : name ∉ r.declaredDirectives) :
      Takes r n { r with
        declaredDirectives := r.declaredDirectives ++ [name]
        directives := r.directives.put name n }
  | schema (kind : n.kind = .schemaDefinition) (fresh : r.schema = none) :
      Takes r n { r with schema := some n }
  | typeExtension {k : TypeKind} {name : Atom} (kind : n.kind = .typeExtension k)
      (key : n.key = .ok name) : Takes r n (r.addExtension k name n)
  | schemaExtension (kind : n.kind = .schemaExtension) :
      Takes r n { r with schemaExtensions := r.schemaExtensions ++ [n] }

/-- Which declarations are taken, and what becomes of the registry. -/
theorem place_eq_ok_iff : r.place n = .ok q ↔ Takes r n q := by
  constructor
  · intro h
    have htype : ((∃ k, n.kind = .typeDefinition k) ∨ n.kind = .bare .typeDefinition) →
        (nameOf n >>= fun name => r.addType name n) = .ok q → Takes r n q := by
      intro hk h
      obtain ⟨name, hkey, h⟩ := exists_name h
      rw [addType] at h
      split at h <;> cases h
      exact .type hk hkey ‹_›
    cases hk : n.kind with
    | typeDefinition k =>
      simp only [Registry.place, hk] at h
      exact htype (.inl ⟨k, hk⟩) h
    | bare g =>
      cases g with
      | typeDefinition =>
        simp only [Registry.place, hk] at h
        exact htype (.inr hk) h
      | _ => simp [Registry.place, hk] at h
    | directiveDefinition =>
      simp only [Registry.place, hk] at h
      obtain ⟨name, hkey, h⟩ := exists_name h
      rw [addDirective] at h
      split at h <;> cases h
      exact .directive hk hkey ‹_›
    | schemaDefinition =>
      simp only [Registry.place, hk, addSchema] at h
      split at h <;> cases h
      exact .schema hk ‹_›
    | typeExtension k =>
      simp only [Registry.place, hk] at h
      obtain ⟨name, hkey, ⟨⟩⟩ := exists_name h
      exact .typeExtension hk hkey
    | schemaExtension =>
      simp only [Registry.place, hk] at h
      cases h
      exact .schemaExtension hk
    | _ => simp [Registry.place, hk] at h
  · intro h
    cases h with
    | type hk hkey hfresh =>
      rcases hk with ⟨k, hk⟩ | hk
      all_goals
        simp only [Registry.place, hk]
        rw [place_of_name hkey, addType, if_neg hfresh]
    | directive hk hkey hfresh =>
      simp only [Registry.place, hk]
      rw [place_of_name hkey, addDirective, if_neg hfresh]
    | schema hk hfresh => simp only [Registry.place, hk, addSchema, hfresh]
    | typeExtension hk hkey =>
      simp only [Registry.place, hk]
      exact place_of_name hkey
    | schemaExtension hk => simp only [Registry.place, hk]

theorem WellTyped.place (h : r.WellTyped) (hn : n.WellTyped) (hk : n.kind.isDeclaration)
    (hq : r.place n = .ok q) : q.WellTyped := by
  cases place_eq_ok_iff.1 hq with
  | type kind key =>
    rcases kind with ⟨k, kind⟩ | kind
    · exact h.putType ⟨hn, key, kind⟩
    · simp [kind, Kind.isDeclaration] at hk
  | directive kind key =>
    refine { h with directives := fun e he => ?_ }
    rcases Table.mem_of_mem_put he with rfl | he
    · exact ⟨hn, key, kind⟩
    · exact h.directives e he
  | schema kind => exact { h with schema := fun m hm => by cases hm; exact ⟨hn, kind⟩ }
  | typeExtension kind key => exact h.addExtension ⟨hn, key, kind⟩
  | schemaExtension kind =>
    refine { h with schemaExtensions := fun m hm => ?_ }
    rcases List.mem_append.1 hm with hm | hm
    · exact h.schemaExtensions m hm
    · rw [List.mem_singleton.1 hm]
      exact ⟨hn, kind⟩

/-- A declaration that was added. -/
theorem WellTyped.add (h : r.WellTyped) (hn : n.WellTyped) (hk : n.kind.isDeclaration)
    (hq : r.add n = .ok q) : q.WellTyped := by
  unfold Registry.add at hq
  cases hplace : r.place n with
  | error e => rw [hplace] at hq; cases hq
  | ok r' =>
    rw [hplace] at hq
    cases hq
    have h' := h.place hn hk hplace
    refine { h' with definitions := fun m hm => ?_ }
    rcases List.mem_append.1 hm with hm | hm
    · exact h'.definitions m hm
    · rw [List.mem_singleton.1 hm]
      exact ⟨hn, hk⟩

/-- Declarations that were added; those with problems are left out. -/
theorem WellTyped.addAll {ns : List Node} (h : r.WellTyped)
    (hns : ∀ n ∈ ns, n.WellTyped ∧ n.kind.isDeclaration) : (r.addAll ns).1.WellTyped := by
  induction ns generalizing r with
  | nil => exact h
  | cons n ns ih =>
    have hrest : ∀ m ∈ ns, m.WellTyped ∧ m.kind.isDeclaration :=
      fun m hm => hns m (List.mem_cons_of_mem _ hm)
    obtain ⟨hn, hk⟩ := hns n List.mem_cons_self
    unfold Registry.addAll
    cases hadd : r.add n with
    | ok q => exact ih (h.add hn hk hadd) hrest
    | error e => cases e <;> exact ih h hrest

theorem WellTyped.merge (h : r.WellTyped) (hq : q.WellTyped) : (r.merge q).1.WellTyped :=
  h.addAll hq.definitions

end Add

/-! ## Documents -/

/-- The registry is built from a document that was read. -/
def OfDocument (r : Registry) : Prop :=
  ∃ source name located document,
    (Parser.Document.ofText source name located).parse = .ok document ∧
      r = (empty.addDocument document).1

theorem OfDocument.wellTyped {r : Registry} (h : r.OfDocument) : r.WellTyped := by
  obtain ⟨source, name, located, document, hparse, rfl⟩ := h
  exact wellTyped_empty.addAll (Parser.Document.isDeclaration_of_parse hparse)

end Registry

end GraphSchema
