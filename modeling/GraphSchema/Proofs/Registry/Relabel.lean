import GraphSchema.Proofs.Problem
import GraphSchema.Proofs.Registry.Extension
import GraphSchema.Proofs.Registry.First

/-!
# Registries of nodes with other metadata

No step of adding declarations and of looking them up looks at metadata. So a registry of nodes with
other metadata is the registry with the metadata of its nodes changed, and has the same problems but
for metadata.

## Main definitions

* `Registry.relabel`: a registry of nodes with other metadata.

## Main statements

* `Registry.addAll_relabel`, `Registry.addDocument_relabel`: adding declarations.
* `Registry.WellTyped.relabel`: well-typed registries.
* `Registry.isWorded_of_mem_addAll`: the problems of adding declarations.
* `Registry.WellTyped.extendedType?_relabel`: types with their extensions.
-/

namespace GraphSchema

open Node

variable {f : Metadata → Metadata}

namespace Registry

/-- A registry of nodes with other metadata. -/
def relabel (f : Metadata → Metadata) (r : Registry) : Registry where
  types := r.types.mapValues (Node.relabel f)
  scalars := r.scalars.mapValues (Node.relabel f)
  directives := r.directives.mapValues (Node.relabel f)
  extensions := fun k => (r.extensions k).mapValues (List.map (Node.relabel f))
  schema := r.schema.map (Node.relabel f)
  schemaExtensions := r.schemaExtensions.map (Node.relabel f)
  declaredTypes := r.declaredTypes
  declaredDirectives := r.declaredDirectives
  definitions := r.definitions.map (Node.relabel f)

/-- The same reason with nodes with other metadata. -/
def Refusal.relabel (f : Metadata → Metadata) : Refusal → Refusal
  | problem p => problem (p.relabel f)
  | failure e => failure e

/-- What becomes of an addition with other metadata. -/
def relabelResult (f : Metadata → Metadata) (result : Except Refusal Registry) :
    Except Refusal Registry :=
  (result.map (relabel f)).mapError (Refusal.relabel f)

variable {r : Registry} {n : Node} {name : Atom}

/-! ## Declarations -/

@[simp] theorem type?_relabel (r : Registry) (name : Atom) :
    (r.relabel f).type? name = (r.type? name).map (Node.relabel f) := by
  rw [type?, type?, relabel, Table.get?_mapValues]
  cases r.types.get? name with
  | some n => rfl
  | none => exact Table.get?_mapValues _ _ _

@[simp] theorem directive?_relabel (r : Registry) (name : Atom) :
    (r.relabel f).directive? name = (r.directive? name).map (Node.relabel f) :=
  Table.get?_mapValues _ _ _

theorem putType_relabel (r : Registry) (name : Atom) (n : Node) :
    (r.relabel f).putType name (n.relabel f) = (r.putType name n).relabel f := by
  rw [putType, putType, kind_relabel]
  split
  · simp only [relabel, Table.put_mapValues]
  · simp only [relabel, Table.put_mapValues, Table.erase_mapValues]

theorem addType_relabel (r : Registry) (name : Atom) (n : Node) :
    (r.relabel f).addType name (n.relabel f) = relabelResult f (r.addType name n) := by
  rw [addType, addType, type?_relabel, putType_relabel]
  change (if name ∈ r.declaredTypes then _ else _) = _
  split <;> rfl

theorem addDirective_relabel (r : Registry) (name : Atom) (n : Node) :
    (r.relabel f).addDirective name (n.relabel f) = relabelResult f (r.addDirective name n) := by
  rw [addDirective, addDirective, directive?_relabel]
  change (if name ∈ r.declaredDirectives then _ else _) = _
  split
  · cases r.directive? name <;> rfl
  · simp only [relabel, Table.put_mapValues]
    rfl

theorem addSchema_relabel (r : Registry) (n : Node) :
    (r.relabel f).addSchema (n.relabel f) = relabelResult f (r.addSchema n) := by
  rw [addSchema, addSchema, relabel]
  cases r.schema <;> rfl

theorem addExtension_relabel (r : Registry) (k : TypeKind) (name : Atom) (n : Node) :
    (r.relabel f).addExtension k name (n.relabel f) = (r.addExtension k name n).relabel f := by
  have hbefore : ((((r.relabel f).extensions k).get? name).getD []) ++ [n.relabel f] =
      ((((r.extensions k).get? name).getD []) ++ [n]).map (Node.relabel f) := by
    rw [relabel, Table.get?_mapValues, List.map_append]
    cases (r.extensions k).get? name <;> rfl
  rw [addExtension, addExtension, hbefore]
  simp only [relabel, Table.put_mapValues, Registry.mk.injEq, true_and, and_true]
  funext l
  split <;> rfl

theorem nameOf_relabel (n : Node) : nameOf (n.relabel f) = nameOf n := by
  rw [nameOf, nameOf, key_relabel]

theorem place_relabel (r : Registry) (n : Node) :
    (r.relabel f).place (n.relabel f) = relabelResult f (r.place n) := by
  have hnamed : ∀ {add add' : Atom → Except Refusal Registry},
      (∀ name, add' name = relabelResult f (add name)) →
        (nameOf n >>= add') = relabelResult f (nameOf n >>= add) := by
    intro add add' h
    rw [nameOf]
    cases n.key with
    | ok name => exact h name
    | error e => rfl
  rw [place, place, kind_relabel, nameOf_relabel]
  split
  · exact hnamed fun name => r.addType_relabel name n
  · exact hnamed fun name => r.addType_relabel name n
  · exact hnamed fun name => congrArg Except.ok (r.addExtension_relabel _ name n)
  · exact r.addSchema_relabel n
  · simp only [relabel, relabelResult, Except.map, Except.mapError, List.map_append,
      List.map_cons, List.map_nil]
  · exact hnamed fun name => r.addDirective_relabel name n
  · rfl

theorem add_relabel (r : Registry) (n : Node) :
    (r.relabel f).add (n.relabel f) = relabelResult f (r.add n) := by
  rw [add, add, place_relabel]
  cases r.place n with
  | error e => rfl
  | ok q =>
    have hlast : { q.relabel f with definitions := (q.relabel f).definitions ++ [n.relabel f] } =
        ({ q with definitions := q.definitions ++ [n] } : Registry).relabel f := by
      simp only [relabel, List.map_append, List.map_cons, List.map_nil]
    exact congrArg Except.ok hlast

/-- Adding declarations with other metadata. -/
theorem addAll_relabel (r : Registry) (ns : List Node) :
    (r.relabel f).addAll (ns.map (Node.relabel f)) =
      ((r.addAll ns).1.relabel f, (r.addAll ns).2.map (Problem.relabel f)) := by
  induction ns generalizing r with
  | nil => rfl
  | cons n ns ih =>
    rw [List.map_cons, addAll, addAll, add_relabel]
    cases r.add n with
    | ok q => exact ih q
    | error e =>
      cases e with
      | problem p =>
        change (((r.relabel f).addAll (ns.map (Node.relabel f))).1,
          p.relabel f :: ((r.relabel f).addAll (ns.map (Node.relabel f))).2) = _
        rw [ih]
        rfl
      | failure e => exact ih r

/-- Adding the declarations of a document with other metadata. -/
theorem addDocument_relabel (r : Registry) (document : Node) :
    (r.relabel f).addDocument (document.relabel f) =
      ((r.addDocument document).1.relabel f,
        (r.addDocument document).2.map (Problem.relabel f)) := by
  rw [addDocument, childrenAt_relabel]
  exact r.addAll_relabel _

/-! ## Well-typed registries -/

theorem Entry.relabel {k : Kind} (h : Entry name n k) : Entry name (n.relabel f) k where
  wellTyped := h.wellTyped.relabel
  key := by rw [key_relabel, h.key]
  kind := by rw [kind_relabel, h.kind]

theorem WellTyped.relabel (h : r.WellTyped) : (r.relabel f).WellTyped where
  types := by
    intro e he
    obtain ⟨d, hd, rfl⟩ := List.mem_map.1 he
    obtain ⟨k, hk, hentry⟩ := h.types d hd
    exact ⟨k, hk, hentry.relabel⟩
  scalars := by
    intro e he
    obtain ⟨d, hd, rfl⟩ := List.mem_map.1 he
    exact (h.scalars d hd).relabel
  directives := by
    intro e he
    obtain ⟨d, hd, rfl⟩ := List.mem_map.1 he
    exact (h.directives d hd).relabel
  extensions := by
    intro k e he n hn
    obtain ⟨d, hd, rfl⟩ := List.mem_map.1 he
    obtain ⟨m, hm, rfl⟩ := List.mem_map.1 hn
    exact (h.extensions k d hd m hm).relabel
  schema := by
    intro n hn
    obtain ⟨m, hm, rfl⟩ := Option.map_eq_some_iff.1 hn
    exact ⟨(h.schema m hm).1.relabel, by rw [kind_relabel, (h.schema m hm).2]⟩
  schemaExtensions := by
    intro n hn
    obtain ⟨m, hm, rfl⟩ := List.mem_map.1 hn
    exact ⟨(h.schemaExtensions m hm).1.relabel, by rw [kind_relabel, (h.schemaExtensions m hm).2]⟩
  definitions := by
    intro n hn
    obtain ⟨m, hm, rfl⟩ := List.mem_map.1 hn
    exact ⟨(h.definitions m hm).1.relabel, by rw [kind_relabel]; exact (h.definitions m hm).2⟩

/-! ## Wordings -/

/-- Only the definition of the schema is known by that. -/
theorem kind_of_keyOf?_schema (h : keyOf? n = some .schema) : n.kind = .schemaDefinition := by
  unfold keyOf? at h
  split at h
  · simp at h
  · simp at h
  · assumption
  · cases h

/-- Problems with declarations that repeat others show names. -/
theorem isWorded_redefinition {ns : List Node} {m : Node} (hn : n.WellTyped) (hm : m.WellTyped)
    (h : firstLike? ns n = some m) : (redefinition n m).IsWorded := by
  obtain ⟨key, hkey, hfirst⟩ := Option.bind_eq_some_iff.1 h
  have hmkey : keyOf? m = some key := by simpa using List.find?_some hfirst
  have hnamed : ∀ {d : Node}, d.WellTyped → keyOf? d = some key → n.kind ≠ .schemaDefinition →
      ∃ t, d.name = .text t := by
    intro d hd hdkey hne
    refine ⟨_, (hd.hasName ?_).name_eq⟩
    unfold keyOf? at hdkey
    split at hdkey
    · rw [‹d.kind = _›]; simp [Kind.layout]
    · rw [‹d.kind = _›]; simp [Kind.layout]
    · cases hdkey
      exact absurd (kind_of_keyOf?_schema hkey) hne
    · cases hdkey
  unfold redefinition
  split
  · rename_i hkind
    have hne : n.kind ≠ .schemaDefinition := by simp [hkind]
    simp [Problem.IsWorded, Problem.shown, hnamed hn hkey hne, hnamed hm hmkey hne]
  · simp [Problem.IsWorded, Problem.shown]
  · simpa [Problem.IsWorded, Problem.shown, Problem.nameOf] using hnamed hn hkey ‹_›

/-- The problems of well-typed declarations show names. -/
theorem isWorded_of_mem_addAll {ns : List Node}
    (hns : ∀ n ∈ ns, n.WellTyped ∧ n.kind.isDeclaration) {p : Problem}
    (hp : p ∈ (empty.addAll ns).2) : p.IsWorded := by
  rw [problems_addAll fun n hn => isItem_of_wellTyped (hns n hn).1 (hns n hn).2] at hp
  obtain ⟨e, he, hp⟩ := List.mem_filterMap.1 hp
  obtain ⟨m, hm, rfl⟩ := Option.map_eq_some_iff.1 hp
  obtain ⟨key, -, hfirst⟩ := Option.bind_eq_some_iff.1 hm
  have hmem : m ∈ ns := List.mem_of_mem_take (List.mem_of_find?_eq_some hfirst)
  exact isWorded_redefinition (hns e.1 (List.fst_mem_of_mem_zipIdx he)).1 (hns m hmem).1 hm

/-! ## Types with their extensions -/

theorem membersOf_relabel (r : Registry) (k : TypeKind) (name : Atom) (base : Node) (role : Role) :
    (r.relabel f).membersOf k name (base.relabel f) role =
      (r.membersOf k name base role).map (Node.relabel f) := by
  have hextensions : (r.relabel f).extensionsAt k name =
      (r.extensionsAt k name).map (Node.relabel f) := by
    rw [extensionsAt, extensionsAt, relabel, Table.get?_mapValues]
    cases (r.extensions k).get? name <;> rfl
  rw [membersOf, membersOf, hextensions, ← List.map_cons, List.flatMap_map, List.map_flatMap]
  exact List.flatMap_congr fun n _ => n.childrenAt_relabel role

/-- The definition of a type with all its extensions, with other metadata. -/
theorem WellTyped.extendedType?_relabel (h : r.WellTyped) (name : Atom) :
    (r.relabel f).extendedType? name =
      (r.extendedType? name).map (Option.map (Node.relabel f)) := by
  have hbase' := type?_relabel (f := f) r name
  cases hbase : r.type? name with
  | none =>
    rw [hbase] at hbase'
    rw [extendedType?_of_none hbase, extendedType?_of_none hbase']
    rfl
  | some base =>
    rw [hbase, Option.map_some] at hbase'
    obtain ⟨k, hentry⟩ := h.type? hbase
    have hkind : (base.relabel f).kind = .typeDefinition k := by rw [kind_relabel, hentry.kind]
    obtain ⟨n, hn, hnk, hinfo, hwell, hmembers, hothers⟩ := h.extendedType?_eq hbase hentry.kind
    obtain ⟨n', hn', hnk', hinfo', hwell', hmembers', hothers'⟩ :=
      (h.relabel (f := f)).extendedType?_eq hbase' hkind
    have hsame : n' = n.relabel f := by
      refine hwell'.shaped.formed.ext hwell.relabel.shaped.formed ?_ ?_ fun role => ?_
      · rw [hnk', kind_relabel, kind_relabel, hnk]
      · rw [hinfo', info_relabel, info_relabel, hinfo]
      · by_cases hmem : role ∈ Kind.members k
        · have hlayout := Kind.mem_layout_typeDefinition hmem
          rw [(hwell'.children (hnk' ▸ hkind ▸ hlayout)).1, content_relabel,
            (hwell.children (hnk ▸ hentry.kind ▸ hlayout)).1, Data.relabel_nodeList,
            hmembers' role hmem, hmembers role hmem, membersOf_relabel]
        · rw [hothers' role hmem, content_relabel, content_relabel, hothers role hmem]
    rw [hn, hn', hsame]
    rfl

end Registry

end GraphSchema
