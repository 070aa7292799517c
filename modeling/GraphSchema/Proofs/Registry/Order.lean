import GraphSchema.Proofs.Registry.Step
import Mathlib.Data.List.Induction

/-!
# The order of names

The names in the tables of a registry come in the order in which they were declared. A name that has
been there always keeps its place when it is declared, and a scalar loses it to a type of another
kind; a type that is extended again keeps its place as well.

## Main definitions

* `Registry.names`: the names of declarations of some kinds, in order.
* `Registry.Lists`: the names that the tables of a registry hold, in order.

## Main statements

* `Registry.Lists.places`: one further declaration.
* `Registry.lists_addAll`: any number of declarations of which none repeats another one.
-/

namespace GraphSchema

/-- A definition of a type that is no scalar. -/
def Kind.isComposite : Kind → Bool
  | typeDefinition k => k != .scalar
  | _ => false

namespace Registry

/-- The names of the scalars that are always there. -/
def builtinScalarNames : List Atom := empty.scalars.keys

/-- The names of the directives that are always there. -/
def builtinDirectiveNames : List Atom := empty.directives.keys

/-- The names of the declarations of some kinds, in order. -/
def names (p : Kind → Bool) (ns : List Node) : List Atom :=
  (ns.filter fun n => p n.kind).filterMap fun n => n.key.toOption

/-- The names that the tables of a registry hold, in order, after declarations that do not repeat
each other. A name that comes again keeps its place, also if it has been there always; a scalar goes
when another type takes its name. -/
structure Lists (ns : List Node) (r : Registry) : Prop where
  types : r.types.keys = names Kind.isComposite ns
  scalars : r.scalars.keys = (builtinScalarNames.filter (· ∉ names Kind.isComposite ns)) ++
    (names (· = .typeDefinition .scalar) ns).filter (· ∉ builtinScalarNames)
  directives : r.directives.keys = builtinDirectiveNames ++
    (names (· = .directiveDefinition) ns).filter (· ∉ builtinDirectiveNames)
  extensions : ∀ k, (r.extensions k).keys = (names (· = .typeExtension k) ns).eraseDups

variable {p : Kind → Bool} {ns ms : List Node} {n m : Node} {r q : Registry} {name : Atom}

/-! ## Names -/

theorem names_append_of_pos (ns : List Node) (hp : p n.kind) (hn : n.key = .ok name) :
    names p (ns ++ [n]) = names p ns ++ [name] := by
  rw [names, names, List.filter_append, List.filter_singleton, hp]
  simp [hn, Except.toOption]

theorem names_append_of_neg (ns : List Node) (hp : p n.kind = false) :
    names p (ns ++ [n]) = names p ns := by
  rw [names, names, List.filter_append, List.filter_singleton, hp]
  simp

theorem toOption_key_eq_some : n.key.toOption = some name ↔ n.key = .ok name := by
  cases n.key <;> simp [Except.toOption]

theorem mem_names : name ∈ names p ns ↔ ∃ n ∈ ns, p n.kind ∧ n.key = .ok name := by
  simp only [names, List.mem_filterMap, List.mem_filter, toOption_key_eq_some, and_assoc]

theorem not_mem_names_of_type (h : first? ns (.type name) = none)
    (hp : ∀ k, p k → ∃ l, k = .typeDefinition l) : name ∉ names p ns := by
  intro hmem
  obtain ⟨n, hn, hk, hkey⟩ := mem_names.1 hmem
  obtain ⟨l, hl⟩ := hp _ hk
  have := List.find?_eq_none.1 h n hn
  simp [keyOf?_typeDefinition hl hkey] at this

theorem not_mem_names_of_directive (h : first? ns (.directive name) = none) :
    name ∉ names (· = .directiveDefinition) ns := by
  intro hmem
  obtain ⟨n, hn, hk, hkey⟩ := mem_names.1 hmem
  have := List.find?_eq_none.1 h n hn
  simp [keyOf?_directiveDefinition (of_decide_eq_true hk) hkey] at this

/-! ## Steps -/

theorem lists_empty : Lists [] empty where
  types := rfl
  scalars := by simp [names, builtinScalarNames]
  directives := by simp [names, builtinDirectiveNames]
  extensions _ := rfl

/-- A name that is put behind those that have been there always and others that are not among
these. -/
theorem put_eq {always kept others : List Atom} (hkept : name ∈ always ↔ name ∈ kept)
    (hnew : name ∉ others) :
    (if name ∈ kept ++ others.filter (· ∉ always) then kept ++ others.filter (· ∉ always)
      else kept ++ others.filter (· ∉ always) ++ [name]) =
      kept ++ (others ++ [name]).filter (· ∉ always) := by
  by_cases h : name ∈ kept
  · simp [h, hkept.2 h]
  · simp [h, mt hkept.1 h, hnew]

theorem Lists.putType (h : Lists ns r) {k : TypeKind} (hk : n.kind = .typeDefinition k)
    (hkey : n.key = .ok name) (hnew : first? ns (.type name) = none) :
    Lists (ns ++ [n]) (r.putType name n) := by
  have hcomposite : name ∉ names Kind.isComposite ns :=
    not_mem_names_of_type hnew fun k hk => by
      cases k with
      | typeDefinition l => exact ⟨l, rfl⟩
      | _ => cases hk
  have hscalar : name ∉ names (· = .typeDefinition .scalar) ns :=
    not_mem_names_of_type hnew fun k hk => ⟨_, of_decide_eq_true hk⟩
  have hdirectives := names_append_of_neg ns (p := (· = .directiveDefinition)) (n := n)
    (by simp [hk])
  have hextensions := fun l => names_append_of_neg ns (p := (· = .typeExtension l)) (n := n)
    (by simp [hk])
  unfold Registry.putType
  split
  · rename_i hs
    rw [hk] at hs
    have hsame := names_append_of_neg ns (p := Kind.isComposite) (n := n)
      (by rw [hk, Kind.typeDefinition.inj hs]; rfl)
    refine ⟨?_, ?_, ?_, fun l => ?_⟩
    · rw [hsame, h.types]
    · rw [Table.keys_put, h.scalars, hsame, names_append_of_pos _ (by simp [hk, hs]) hkey]
      exact put_eq (by simp [hcomposite]) hscalar
    · rw [hdirectives, h.directives]
    · rw [hextensions, h.extensions]
  · rename_i hs
    have hsame := names_append_of_neg ns (p := (· = .typeDefinition .scalar)) (n := n)
      (by simpa using hs)
    have hadded := names_append_of_pos ns (p := Kind.isComposite)
      (by rw [hk] at hs ⊢; simpa [Kind.isComposite] using hs) hkey
    -- A scalar of this name can only be one that has been there always.
    refine ⟨?_, ?_, ?_, fun l => ?_⟩
    · rw [Table.keys_put, h.types, if_neg hcomposite, hadded]
    · rw [Table.keys_erase, h.scalars, hsame, hadded, List.filter_append, List.filter_filter,
        List.filter_filter]
      congr 1
      · refine List.filter_congr fun a _ => ?_
        simp [and_comm, not_or]
      · refine List.filter_congr fun a ha => ?_
        have hne : a ≠ name := fun heq => hscalar (heq ▸ ha)
        simp [hne]
    · rw [hdirectives, h.directives]
    · rw [hextensions, h.extensions]

/-- A declaration that defines no type leaves the names of types as they are. -/
theorem names_append_of_not_type (ns : List Node) (hk : ∀ k, n.kind ≠ .typeDefinition k) :
    names Kind.isComposite (ns ++ [n]) = names Kind.isComposite ns ∧
      names (· = .typeDefinition .scalar) (ns ++ [n]) = names (· = .typeDefinition .scalar) ns := by
  constructor
  · refine names_append_of_neg ns ?_
    cases hkind : n.kind with
    | typeDefinition k => exact absurd hkind (hk k)
    | _ => rfl
  · exact names_append_of_neg _ (by simp [hk])

theorem Lists.putDirective (h : Lists ns r) (hk : n.kind = .directiveDefinition)
    (hkey : n.key = .ok name) (hnew : first? ns (.directive name) = none) :
    Lists (ns ++ [n]) { r with
      declaredDirectives := r.declaredDirectives ++ [name]
      directives := r.directives.put name n } := by
  obtain ⟨htypes, hscalars⟩ := names_append_of_not_type ns (n := n) (by simp [hk])
  refine ⟨?_, ?_, ?_, fun l => ?_⟩
  · rw [htypes, ← h.types]
  · rw [htypes, hscalars, ← h.scalars]
  · rw [Table.keys_put, h.directives, names_append_of_pos _ (by simp [hk]) hkey]
    exact put_eq Iff.rfl (not_mem_names_of_directive hnew)
  · rw [names_append_of_neg _ (by simp [hk]), ← h.extensions]

theorem Lists.addExtension (h : Lists ns r) {k : TypeKind} (hk : n.kind = .typeExtension k)
    (hkey : n.key = .ok name) : Lists (ns ++ [n]) (r.addExtension k name n) := by
  obtain ⟨htypes, hscalars⟩ := names_append_of_not_type ns (n := n) (by simp [hk])
  refine ⟨?_, ?_, ?_, fun l => ?_⟩
  · rw [htypes, ← h.types, Registry.addExtension]
  · rw [htypes, hscalars, ← h.scalars, Registry.addExtension]
  · rw [names_append_of_neg _ (by simp [hk]), ← h.directives, Registry.addExtension]
  · simp only [Registry.addExtension]
    split
    · rename_i hl
      rw [hl, Table.keys_put, h.extensions, names_append_of_pos _ (by simp [hk]) hkey]
      exact Table.eraseDups_concat _ _
    · rename_i hl
      rw [h.extensions, names_append_of_neg _ (by simpa [hk] using Ne.symm hl)]

/-- What is neither a type, nor a directive, nor an extension of a type, stands in no table. -/
theorem Lists.of_eq (h : Lists ns r) (hk : n.kind = .schemaDefinition ∨ n.kind = .schemaExtension)
    {schema : Option Node} {schemaExtensions : List Node} :
    Lists (ns ++ [n]) { r with schema, schemaExtensions } := by
  obtain ⟨htypes, hscalars⟩ := names_append_of_not_type ns (n := n)
    (by rcases hk with hk | hk <;> simp [hk])
  refine ⟨?_, ?_, ?_, fun l => ?_⟩
  · rw [htypes, ← h.types]
  · rw [htypes, hscalars, ← h.scalars]
  · rw [names_append_of_neg _ (by rcases hk with hk | hk <;> simp [hk]), ← h.directives]
  · rw [names_append_of_neg _ (by rcases hk with hk | hk <;> simp [hk]), ← h.extensions]

theorem Lists.places (h : Lists ns r) (hplaces : Places r n q) (hnew : firstLike? ns n = none) :
    Lists (ns ++ [n]) q := by
  cases hplaces with
  | type hk hkey =>
    rw [firstLike?_eq (keyOf?_typeDefinition hk hkey)] at hnew
    exact h.putType hk hkey hnew
  | directive hk hkey =>
    rw [firstLike?_eq (keyOf?_directiveDefinition hk hkey)] at hnew
    exact h.putDirective hk hkey hnew
  | schema hk => exact h.of_eq (.inl hk)
  | typeExtension hk hkey => exact h.addExtension hk hkey
  | schemaExtension hk => exact h.of_eq (.inr hk)

theorem Lists.definitions (h : Lists ns r) (ds : List Node) :
    Lists ns { r with definitions := ds } :=
  ⟨h.types, h.scalars, h.directives, h.extensions⟩

/-- The tables after declarations of which none repeats another one. -/
theorem Lists.addAll (h : Lists ns r) (hkeeps : Keeps ns r) (hms : ∀ m ∈ ms, IsItem m)
    (hpairwise : ms.Pairwise Compatible) (hnew : ∀ m ∈ ms, firstLike? ns m = none) :
    Lists (ns ++ ms) (r.addAll ms).1 := by
  induction ms generalizing ns r with
  | nil => rwa [List.append_nil]
  | cons n ms ih =>
    obtain ⟨hn, hms⟩ := List.forall_mem_cons.1 hms
    obtain ⟨hfirst, hpairwise⟩ := List.pairwise_cons.1 hpairwise
    obtain ⟨hlike, hnew⟩ := List.forall_mem_cons.1 hnew
    cases hkeeps.outcome hn with
    | refused m hlike' => exact absurd (hlike.symm.trans hlike') (by simp)
    | added p q _ hplaces hq hkeeps hall =>
      rw [hall, List.append_cons]
      refine ih (hq ▸ (h.places hplaces hlike).definitions _) hkeeps hms hpairwise fun m hm => ?_
      rw [firstLike?_append_of_compatible (hfirst m hm), hnew m hm]

/-- The order of the names of declarations of which none repeats another one. -/
theorem lists_addAll (hns : ∀ n ∈ ns, IsItem n) (hpairwise : ns.Pairwise Compatible) :
    Lists ns (empty.addAll ns).1 :=
  lists_empty.addAll keeps_empty hns hpairwise fun n _ => firstLike?_nil n

end Registry

end GraphSchema
