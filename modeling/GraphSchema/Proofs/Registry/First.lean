import GraphSchema.Proofs.Registry.WellTyped

/-!
# The first declaration counts

Declarations are added to a registry one after the other. Of those that cannot stand beside each
other the first one counts: the later ones are refused with a problem that names the first one, and
leave the registry as it is. What is always there counts where nothing was declared.

## Main definitions

* `Registry.Key`, `Registry.keyOf?`: what only one declaration can have.
* `Registry.first?`: the first declaration of a key.
* `Registry.redefinitions`: the problems of declarations in order.
* `Registry.Keeps`: what a registry knows of the declarations that were added to it.
* `Registry.Receives`: what becomes of a further declaration.

## Main statements

* `Registry.Keeps.add`: one further declaration.
* `Registry.keeps_addAll`: any number of declarations.
* `Registry.addAll_first`: the first declaration counts.
-/

namespace GraphSchema

namespace Registry

/-- What only one declaration can have: the name of a type, the name of a directive, or to be the
definition of the schema. -/
inductive Key where
  | type (name : Atom)
  | directive (name : Atom)
  | schema
deriving DecidableEq

/-- What no other declaration can have beside this one; extensions can always be added. -/
def keyOf? (n : Node) : Option Key :=
  match n.kind with
  | .typeDefinition _ => n.key.toOption.map .type
  | .directiveDefinition => n.key.toOption.map .directive
  | .schemaDefinition => some .schema
  | _ => none

/-- A definition or an extension, with a name unless it is one of the schema. -/
structure IsItem (n : Node) : Prop where
  kind : n.kind.isDeclaration
  key : n.kind = .schemaDefinition ∨ n.kind = .schemaExtension ∨ ∃ name, n.key = .ok name

/-- The first declaration that has a key. -/
def first? (ns : List Node) (key : Key) : Option Node := ns.find? fun n => keyOf? n = some key

/-- The first declaration that has the key of a given one. -/
def firstLike? (ns : List Node) (n : Node) : Option Node := (keyOf? n).bind (first? ns)

/-- The problem of declaring again what was declared already. -/
def redefinition (n existing : Node) : Problem :=
  match n.kind with
  | .directiveDefinition => .directiveRedefinition n existing
  | .schemaDefinition => .schemaRedefinition n existing
  | _ => .typeRedefinition n existing

/-- The problems of declarations in order: one for each that has the key of a former one. -/
def redefinitions (ns : List Node) : List Problem :=
  ns.zipIdx.filterMap fun e => (firstLike? (ns.take e.2) e.1).map (redefinition e.1)

/-- The definition of a scalar that is always there. -/
def builtinType? (name : Atom) : Option Node :=
  (Scalar.builtins.find? fun s => .text s.name = name).map Scalar.definition

/-- The definition of a directive that is always there. -/
def builtinDirective? (name : Atom) : Option Node :=
  builtinDirectives.find? fun n => n.key.toOption = some name

/-- The extensions among declarations that belong to a kind of types and have a name. -/
def extensionsIn (ns : List Node) (k : TypeKind) (name : Atom) : List Node :=
  ns.filter fun n => n.kind = .typeExtension k ∧ n.key.toOption = some name

/-- A definition of a scalar. -/
def definesScalar (n : Node) : Bool := n.kind = .typeDefinition .scalar

/-- What a registry knows of the declarations that were added to it. -/
structure Keeps (ns : List Node) (r : Registry) : Prop where
  types : ∀ name, r.types.get? name = (first? ns (.type name)).filter (!definesScalar ·)
  scalars : ∀ name, r.scalars.get? name =
    ((first? ns (.type name)).or (builtinType? name)).filter definesScalar
  directives : ∀ name, r.directives.get? name =
    (first? ns (.directive name)).or (builtinDirective? name)
  extensions : ∀ k name, (r.extensions k).get? name =
    if (extensionsIn ns k name).isEmpty then none else some (extensionsIn ns k name)
  schema : r.schema = first? ns .schema
  schemaExtensions : r.schemaExtensions = ns.filter fun n => n.kind = .schemaExtension
  declaredTypes : ∀ name, name ∈ r.declaredTypes ↔ (first? ns (.type name)).isSome
  declaredDirectives : ∀ name, name ∈ r.declaredDirectives ↔ (first? ns (.directive name)).isSome

/-- What becomes of a declaration after others: it is refused if a former one has its key, and kept
otherwise. -/
structure Receives (ns : List Node) (n : Node) (result : Except Refusal Registry) : Prop where
  refused : ∀ m, firstLike? ns n = some m → result = .error (.problem (redefinition n m))
  added : firstLike? ns n = none → ∃ q, result = .ok q ∧ Keeps (ns ++ [n]) q

variable {ns : List Node} {n m : Node} {r : Registry} {key : Key} {name : Atom}

/-! ## Keys -/

theorem first?_append (ns : List Node) (n : Node) (key : Key) :
    first? (ns ++ [n]) key = (first? ns key).or (if keyOf? n = some key then some n else none) := by
  rw [first?, List.find?_append]
  by_cases h : keyOf? n = some key <;> simp [first?, h]

/-- A declaration with the key of a former one changes nothing about which ones are first. -/
theorem first?_append_of_firstLike? (h : firstLike? ns n = some m) (key : Key) :
    first? (ns ++ [n]) key = first? ns key := by
  rw [first?_append]
  split
  · rename_i hkey
    rw [firstLike?, hkey] at h
    rw [show first? ns key = some m from h]
    rfl
  · exact Option.or_none

theorem keyOf?_typeDefinition {k : TypeKind} (hk : n.kind = .typeDefinition k)
    (hn : n.key = .ok name) : keyOf? n = some (.type name) := by
  rw [keyOf?, hk, hn]
  rfl

theorem keyOf?_directiveDefinition (hk : n.kind = .directiveDefinition) (hn : n.key = .ok name) :
    keyOf? n = some (.directive name) := by
  rw [keyOf?, hk, hn]
  rfl

theorem keyOf?_schemaDefinition (hk : n.kind = .schemaDefinition) : keyOf? n = some .schema := by
  rw [keyOf?, hk]

/-- Extensions have no key. -/
theorem keyOf?_eq_none (hk : (∃ k, n.kind = .typeExtension k) ∨ n.kind = .schemaExtension) :
    keyOf? n = none := by
  rw [keyOf?]
  rcases hk with ⟨k, hk⟩ | hk <;> rw [hk]

theorem kind_of_keyOf? (h : keyOf? n = some key) :
    (∀ k, n.kind ≠ .typeExtension k) ∧ n.kind ≠ .schemaExtension := by
  constructor
  · intro k hk
    rw [keyOf?_eq_none (.inl ⟨k, hk⟩)] at h
    cases h
  · intro hk
    rw [keyOf?_eq_none (.inr hk)] at h
    cases h

/-- A well-typed definition or extension can be added. -/
theorem isItem_of_wellTyped (h : n.WellTyped) (hk : n.kind.isDeclaration) : IsItem n := by
  refine ⟨hk, ?_⟩
  have hname : Kind.named ∈ n.kind.layout → ∃ name, n.key = .ok name :=
    fun hr => ⟨_, (h.hasName hr).key_eq⟩
  cases hkind : n.kind with
  | schemaDefinition => exact .inl rfl
  | schemaExtension => exact .inr (.inl rfl)
  | directiveDefinition => exact .inr (.inr (hname (by simp [hkind, Kind.layout])))
  | typeDefinition k => exact .inr (.inr (hname (by simp [hkind, Kind.layout])))
  | typeExtension k => exact .inr (.inr (hname (by simp [hkind, Kind.layout])))
  | _ => simp [hkind, Kind.isDeclaration] at hk

/-! ## What is always there -/

theorem definesScalar_of_builtinType? (h : builtinType? name = some n) : definesScalar n := by
  obtain ⟨s, -, rfl⟩ := Option.map_eq_some_iff.1 h
  rfl

theorem get?_scalars_empty (name : Atom) : empty.scalars.get? name = builtinType? name := by
  rw [Table.get?_eq_find?, empty, List.find?_map, builtinType?, Option.map_map]
  rfl

theorem get?_directives_empty (name : Atom) :
    empty.directives.get? name = builtinDirective? name := by
  have hnamed : ∀ n,
      ((named? n).any fun e => e.1 = name) = decide (n.key.toOption = some name) := by
    intro n
    rw [named?]
    cases n.key.toOption with
    | none => simp
    | some a => simp
  rw [Table.get?_eq_find?, empty, List.find?_filterMap, builtinDirective?]
  simp only [hnamed]
  cases h : builtinDirectives.find? fun n => n.key.toOption = some name with
  | none => rfl
  | some n =>
    have hkey := List.find?_some h
    simp only [decide_eq_true_eq] at hkey
    simp [named?, hkey]

theorem keeps_empty : Keeps [] empty where
  types name := rfl
  scalars name := by
    rw [get?_scalars_empty, first?, List.find?_nil, Option.none_or]
    cases h : builtinType? name with
    | none => rfl
    | some n => rw [Option.filter_some_pos (definesScalar_of_builtinType? h)]
  directives name := by
    -- By rewriting: to compare the sides by computation, the text of these directives is read.
    rw [first?, List.find?_nil, Option.none_or]
    exact get?_directives_empty name
  extensions k name := rfl
  schema := rfl
  schemaExtensions := rfl
  declaredTypes name := by simp [empty, first?]
  declaredDirectives name := by simp [empty, first?]

/-! ## Further declarations -/

theorem extensionsIn_append (hk : ∀ k, n.kind ≠ .typeExtension k) (k : TypeKind) (a : Atom) :
    extensionsIn (ns ++ [n]) k a = extensionsIn ns k a := by
  simp [extensionsIn, List.filter_append, hk]

/-- The extensions of a type with one more extension, of this type or of another one. -/
theorem extensionsIn_append_extension {k : TypeKind} (hk : n.kind = .typeExtension k)
    (hn : n.key = .ok name) (l : TypeKind) (a : Atom) :
    extensionsIn (ns ++ [n]) l a =
      extensionsIn ns l a ++ if l = k ∧ name = a then [n] else [] := by
  have hmatch : decide (n.kind = .typeExtension l ∧ n.key.toOption = some a) =
      decide (l = k ∧ name = a) := by
    rw [hk, hn]
    exact decide_eq_decide.2
      (and_congr ⟨fun h => by cases h; rfl, fun h => by rw [h]⟩ Option.some_inj)
  rw [extensionsIn, List.filter_append, List.filter_singleton, hmatch, ← extensionsIn]
  by_cases h : l = k ∧ name = a <;> simp [h]

theorem schemaExtensions_append (hk : n.kind ≠ .schemaExtension) :
    (ns ++ [n]).filter (fun n => n.kind = .schemaExtension) =
      ns.filter fun n => n.kind = .schemaExtension := by
  simp [List.filter_append, hk]

/-- Declarations whose first ones are the same differ in extensions only. -/
theorem Keeps.of_first?_eq (h : Keeps ns r) {ms : List Node}
    (hfirst : ∀ key, first? ms key = first? ns key)
    {extensions : TypeKind → Table Atom (List Node)} {schemaExtensions : List Node}
    (hextensions : ∀ k a, (extensions k).get? a =
      if (extensionsIn ms k a).isEmpty then none else some (extensionsIn ms k a))
    (hschema : schemaExtensions = ms.filter fun n => n.kind = .schemaExtension) :
    Keeps ms { r with extensions, schemaExtensions } where
  types a := by rw [hfirst, ← h.types]
  scalars a := by rw [hfirst, ← h.scalars]
  directives a := by rw [hfirst, ← h.directives]
  extensions := hextensions
  schema := by rw [hfirst, ← h.schema]
  schemaExtensions := hschema
  declaredTypes a := by rw [hfirst, ← h.declaredTypes]
  declaredDirectives a := by rw [hfirst, ← h.declaredDirectives]

/-- A declaration that has the key of a former one changes nothing. -/
theorem Keeps.refused (h : Keeps ns r) (hm : firstLike? ns n = some m) : Keeps (ns ++ [n]) r := by
  obtain ⟨key, hkey, -⟩ := Option.bind_eq_some_iff.1 hm
  obtain ⟨hext, hschema⟩ := kind_of_keyOf? hkey
  refine h.of_first?_eq (first?_append_of_firstLike? hm) (fun k a => ?_) ?_
  · rw [extensionsIn_append hext, h.extensions]
  · rw [schemaExtensions_append hschema, h.schemaExtensions]

theorem Keeps.definitions (h : Keeps ns r) (ds : List Node) :
    Keeps ns { r with definitions := ds } :=
  ⟨h.types, h.scalars, h.directives, h.extensions, h.schema, h.schemaExtensions, h.declaredTypes,
    h.declaredDirectives⟩

/-- After a declaration whose key is new. -/
theorem first?_append_new (hkey : keyOf? n = some key) (hnew : first? ns key = none) (l : Key) :
    first? (ns ++ [n]) l = if key = l then some n else first? ns l := by
  rw [first?_append, hkey]
  by_cases hl : key = l
  · subst hl
    simp [hnew]
  · simp [hl]

/-- A definition of a type that was not defined: it stands in one of two tables. -/
theorem Keeps.withType (h : Keeps ns r) (hkey : keyOf? n = some (.type name))
    (hnew : first? ns (.type name) = none) {types scalars : Table Atom Node}
    (htypes : ∀ a, types.get? a =
      if name = a then (some n).filter (!definesScalar ·) else r.types.get? a)
    (hscalars : ∀ a, scalars.get? a =
      if name = a then (some n).filter definesScalar else r.scalars.get? a) :
    Keeps (ns ++ [n]) { r with declaredTypes := r.declaredTypes ++ [name], types, scalars } := by
  have hfirst := first?_append_new hkey hnew
  constructor
  · intro a
    rw [htypes, hfirst, h.types]
    by_cases ha : name = a <;> simp [ha]
  · intro a
    rw [hscalars, hfirst, h.scalars]
    by_cases ha : name = a <;> simp [ha]
  · exact fun a => by simp [hfirst, h.directives]
  · exact fun k a => by rw [extensionsIn_append (kind_of_keyOf? hkey).1, ← h.extensions]
  · simp [hfirst, h.schema]
  · rw [schemaExtensions_append (kind_of_keyOf? hkey).2, ← h.schemaExtensions]
  · intro a
    rw [hfirst, List.mem_append, h.declaredTypes, List.mem_singleton]
    by_cases ha : name = a
    · simp [ha]
    · simp [ha, Ne.symm ha]
  · exact fun a => by simp [hfirst, h.declaredDirectives]

theorem Keeps.putType (h : Keeps ns r) {k : TypeKind} (hk : n.kind = .typeDefinition k)
    (hn : n.key = .ok name) (hnew : first? ns (.type name) = none) :
    Keeps (ns ++ [n]) (r.putType name n) := by
  have hkey := keyOf?_typeDefinition hk hn
  unfold Registry.putType
  split
  · rename_i hs
    have hscalar : definesScalar n := by simpa [definesScalar] using hs
    refine h.withType hkey hnew (fun a => ?_) fun a => ?_
    · by_cases ha : name = a
      · subst ha
        simp [h.types, hnew, Option.filter_some, hscalar]
      · simp [ha]
    · rw [Table.get?_put, Option.filter_some_pos hscalar]
  · rename_i hs
    have hscalar : definesScalar n = false := by simpa [definesScalar] using hs
    refine h.withType hkey hnew (fun a => ?_) fun a => ?_
    · rw [Table.get?_put, Option.filter_some_pos (by simp [hscalar])]
    · rw [Table.get?_erase, Option.filter_some_neg (by simp [hscalar])]

/-- A definition of a directive that was not defined. -/
theorem Keeps.withDirective (h : Keeps ns r) (hkey : keyOf? n = some (.directive name))
    (hnew : first? ns (.directive name) = none) :
    Keeps (ns ++ [n]) { r with
      declaredDirectives := r.declaredDirectives ++ [name]
      directives := r.directives.put name n } := by
  have hfirst := first?_append_new hkey hnew
  constructor
  · exact fun a => by simp [hfirst, h.types]
  · exact fun a => by simp [hfirst, h.scalars]
  · intro a
    rw [Table.get?_put, hfirst, h.directives]
    by_cases ha : name = a <;> simp [ha]
  · exact fun k a => by rw [extensionsIn_append (kind_of_keyOf? hkey).1, ← h.extensions]
  · simp [hfirst, h.schema]
  · rw [schemaExtensions_append (kind_of_keyOf? hkey).2, ← h.schemaExtensions]
  · exact fun a => by simp [hfirst, h.declaredTypes]
  · intro a
    rw [hfirst, List.mem_append, h.declaredDirectives, List.mem_singleton]
    by_cases ha : name = a
    · simp [ha]
    · simp [ha, Ne.symm ha]

/-- The definition of the schema. -/
theorem Keeps.withSchema (h : Keeps ns r) (hkey : keyOf? n = some .schema)
    (hnew : first? ns .schema = none) : Keeps (ns ++ [n]) { r with schema := some n } := by
  have hfirst := first?_append_new hkey hnew
  constructor
  · exact fun a => by simp [hfirst, h.types]
  · exact fun a => by simp [hfirst, h.scalars]
  · exact fun a => by simp [hfirst, h.directives]
  · exact fun k a => by rw [extensionsIn_append (kind_of_keyOf? hkey).1, ← h.extensions]
  · simp [hfirst]
  · rw [schemaExtensions_append (kind_of_keyOf? hkey).2, ← h.schemaExtensions]
  · exact fun a => by simp [hfirst, h.declaredTypes]
  · exact fun a => by simp [hfirst, h.declaredDirectives]

/-- An extension has no key. -/
theorem first?_append_none (hkey : keyOf? n = none) (l : Key) :
    first? (ns ++ [n]) l = first? ns l := by
  rw [first?_append, hkey, if_neg nofun, Option.or_none]

/-- The extensions that a registry holds for a type. -/
theorem Keeps.getD_extensions (h : Keeps ns r) (k : TypeKind) (a : Atom) :
    ((r.extensions k).get? a).getD [] = extensionsIn ns k a := by
  rw [h.extensions]
  split
  · rename_i hnil
    exact (List.isEmpty_iff.1 hnil).symm
  · rfl

/-- An extension of a type. -/
theorem Keeps.addExtension (h : Keeps ns r) {k : TypeKind} (hk : n.kind = .typeExtension k)
    (hn : n.key = .ok name) : Keeps (ns ++ [n]) (r.addExtension k name n) := by
  refine h.of_first?_eq (first?_append_none (keyOf?_eq_none (.inl ⟨k, hk⟩))) (fun l a => ?_) ?_
  · rw [extensionsIn_append_extension hk hn, h.getD_extensions]
    by_cases hl : l = k
    · subst hl
      simp only [if_true, true_and, Table.get?_put]
      by_cases ha : name = a
      · simp [ha]
      · simp [ha, h.extensions]
    · simp [hl, h.extensions]
  · rw [schemaExtensions_append (by simp [hk]), h.schemaExtensions]

/-- An extension of the schema. -/
theorem Keeps.withSchemaExtension (h : Keeps ns r) (hk : n.kind = .schemaExtension) :
    Keeps (ns ++ [n]) { r with schemaExtensions := r.schemaExtensions ++ [n] } := by
  refine h.of_first?_eq (first?_append_none (keyOf?_eq_none (.inr hk))) (fun l a => ?_) ?_
  · rw [extensionsIn_append (by simp [hk]), h.extensions]
  · rw [List.filter_append, h.schemaExtensions]
    simp [hk]

/-! ## Adding -/

/-- What a name of a type stands for. -/
theorem Keeps.type? (h : Keeps ns r) (name : Atom) :
    r.type? name = (first? ns (.type name)).or (builtinType? name) := by
  rw [Registry.type?]
  cases hf : first? ns (.type name) with
  | some n =>
    cases hs : definesScalar n with
    | true => simp [h.types, h.scalars, hf, Option.filter_some, hs]
    | false => simp [h.types, hf, Option.filter_some, hs]
  | none =>
    have hb : (builtinType? name).filter definesScalar = builtinType? name := by
      cases hb : builtinType? name with
      | none => rfl
      | some n => rw [Option.filter_some_pos (definesScalar_of_builtinType? hb)]
    simp [h.types, h.scalars, hf, hb]

theorem add_of_place {q : Registry} (h : r.place n = .ok q) :
    r.add n = .ok { q with definitions := q.definitions ++ [n] } := by
  rw [Registry.add, h]
  rfl

theorem add_of_place_error {e : Refusal} (h : r.place n = .error e) : r.add n = .error e := by
  rw [Registry.add, h]
  rfl

theorem Keeps.addType (h : Keeps ns r) {k : TypeKind} (hk : n.kind = .typeDefinition k)
    (hn : n.key = .ok name) : Receives ns n (r.addType name n) := by
  have hlike : firstLike? ns n = first? ns (.type name) := by
    rw [firstLike?, keyOf?_typeDefinition hk hn]
    rfl
  unfold Registry.addType
  constructor
  · intro m hm
    rw [hlike] at hm
    rw [if_pos ((h.declaredTypes name).2 (by rw [hm]; rfl)), h.type?, hm, redefinition, hk]
    rfl
  · intro hnone
    rw [hlike] at hnone
    rw [if_neg fun hd => by simpa [hnone] using (h.declaredTypes name).1 hd]
    exact ⟨_, rfl, h.putType hk hn hnone⟩

theorem Keeps.addDirective (h : Keeps ns r) (hk : n.kind = .directiveDefinition)
    (hn : n.key = .ok name) : Receives ns n (r.addDirective name n) := by
  have hkey := keyOf?_directiveDefinition hk hn
  have hlike : firstLike? ns n = first? ns (.directive name) := by
    rw [firstLike?, hkey]
    rfl
  unfold Registry.addDirective
  constructor
  · intro m hm
    rw [hlike] at hm
    rw [if_pos ((h.declaredDirectives name).2 (by rw [hm]; rfl)), directive?, h.directives, hm,
      redefinition, hk]
    rfl
  · intro hnone
    rw [hlike] at hnone
    rw [if_neg fun hd => by simpa [hnone] using (h.declaredDirectives name).1 hd]
    exact ⟨_, rfl, h.withDirective hkey hnone⟩

theorem Keeps.addSchema (h : Keeps ns r) (hk : n.kind = .schemaDefinition) :
    Receives ns n (r.addSchema n) := by
  have hkey := keyOf?_schemaDefinition hk
  have hlike : firstLike? ns n = first? ns .schema := by
    rw [firstLike?, hkey]
    rfl
  unfold Registry.addSchema
  rw [h.schema]
  constructor
  · intro m hm
    rw [hlike] at hm
    rw [hm, redefinition, hk]
  · intro hnone
    rw [hlike] at hnone
    rw [hnone]
    exact ⟨_, rfl, h.withSchema hkey hnone⟩

/-- What has no key is never refused. -/
theorem receives_of_keyOf?_eq_none (hkey : keyOf? n = none) {q : Registry}
    (hq : Keeps (ns ++ [n]) q) : Receives ns n (.ok q) where
  refused m hm := by
    rw [firstLike?, hkey] at hm
    cases hm
  added _ := ⟨q, rfl, hq⟩

/-- A further declaration finds its table. -/
theorem Keeps.place (h : Keeps ns r) (hn : IsItem n) : Receives ns n (r.place n) := by
  have hname : n.kind ≠ .schemaDefinition → n.kind ≠ .schemaExtension →
      ∃ name, n.key = .ok name := fun h₁ h₂ => (hn.key.resolve_left h₁).resolve_left h₂
  cases hk : n.kind with
  | typeDefinition k =>
    obtain ⟨name, hkey⟩ := hname (by simp [hk]) (by simp [hk])
    simp only [Registry.place, hk]
    rw [place_of_name hkey]
    exact h.addType hk hkey
  | directiveDefinition =>
    obtain ⟨name, hkey⟩ := hname (by simp [hk]) (by simp [hk])
    simp only [Registry.place, hk]
    rw [place_of_name hkey]
    exact h.addDirective hk hkey
  | schemaDefinition =>
    simp only [Registry.place, hk]
    exact h.addSchema hk
  | typeExtension k =>
    obtain ⟨name, hkey⟩ := hname (by simp [hk]) (by simp [hk])
    simp only [Registry.place, hk]
    rw [place_of_name hkey]
    exact receives_of_keyOf?_eq_none (keyOf?_eq_none (.inl ⟨k, hk⟩)) (h.addExtension hk hkey)
  | schemaExtension =>
    simp only [Registry.place, hk]
    exact receives_of_keyOf?_eq_none (keyOf?_eq_none (.inr hk)) (h.withSchemaExtension hk)
  | _ => exact absurd hn.kind (by simp [hk, Kind.isDeclaration])

theorem Keeps.add (h : Keeps ns r) (hn : IsItem n) : Receives ns n (r.add n) where
  refused m hm := add_of_place_error ((h.place hn).refused m hm)
  added hnone := by
    obtain ⟨q, hq, hkeeps⟩ := (h.place hn).added hnone
    exact ⟨_, add_of_place hq, hkeeps.definitions _⟩

theorem addAll_cons_of_ok {q : Registry} (h : r.add n = .ok q) (ms : List Node) :
    r.addAll (n :: ms) = q.addAll ms := by
  simp only [Registry.addAll, h]

theorem addAll_cons_of_problem {p : Problem} (h : r.add n = .error (.problem p)) (ms : List Node) :
    r.addAll (n :: ms) = ((r.addAll ms).1, p :: (r.addAll ms).2) := by
  simp only [Registry.addAll, h]

/-- Declarations in order, those that are refused left out. -/
theorem Keeps.addAll {ms : List Node} (h : Keeps ns r) (hms : ∀ m ∈ ms, IsItem m) :
    Keeps (ns ++ ms) (r.addAll ms).1 ∧
      (r.addAll ms).2 = (ms.zipIdx ns.length).filterMap fun e =>
        (firstLike? ((ns ++ ms).take e.2) e.1).map (redefinition e.1) := by
  -- Each declaration goes over to those in front of the rest, whether it is refused or not.
  induction ms generalizing ns r with
  | nil => exact ⟨by rwa [List.append_nil], rfl⟩
  | cons n ms ih =>
    obtain ⟨hn, hms⟩ := List.forall_mem_cons.1 hms
    obtain ⟨hrefused, hadded⟩ := h.add hn
    have hassoc : ns ++ n :: ms = (ns ++ [n]) ++ ms := by simp
    have htake : (ns ++ n :: ms).take ns.length = ns := List.take_left
    have hlen : (ns ++ [n]).length = ns.length + 1 := by simp
    rw [List.zipIdx_cons, List.filterMap_cons, htake]
    cases hlike : firstLike? ns n with
    | some m =>
      obtain ⟨hkeeps, hproblems⟩ := ih (h.refused hlike) hms
      rw [← hassoc] at hkeeps hproblems
      rw [addAll_cons_of_problem (hrefused m hlike)]
      exact ⟨hkeeps, by rw [hproblems, hlen]; rfl⟩
    | none =>
      obtain ⟨q, hq, hkeeps⟩ := hadded hlike
      obtain ⟨hkeeps, hproblems⟩ := ih hkeeps hms
      rw [← hassoc] at hkeeps hproblems
      rw [addAll_cons_of_ok hq]
      exact ⟨hkeeps, by rw [hproblems, hlen]; rfl⟩

theorem keeps_addAll (hns : ∀ n ∈ ns, IsItem n) : Keeps ns (empty.addAll ns).1 :=
  (keeps_empty.addAll hns).1

theorem problems_addAll (hns : ∀ n ∈ ns, IsItem n) : (empty.addAll ns).2 = redefinitions ns :=
  (keeps_empty.addAll hns).2

theorem addAll_append (r : Registry) (ns ms : List Node) :
    (r.addAll (ns ++ ms)).1 = ((r.addAll ns).1.addAll ms).1 := by
  induction ns generalizing r with
  | nil => rfl
  | cons n ns ih =>
    rw [List.cons_append, addAll, addAll]
    cases r.add n with
    | ok q => exact ih q
    | error e => cases e <;> exact ih r

/-- No name is one of a type and of a scalar. -/
theorem Keeps.not_mem_keys (h : Keeps ns r) (name : Atom) :
    ¬(name ∈ r.types.keys ∧ name ∈ r.scalars.keys) := by
  rw [Table.mem_keys_iff, Table.mem_keys_iff, h.types, h.scalars]
  cases first? ns (.type name) with
  | none => simp
  | some n => cases hs : definesScalar n <;> simp [Option.filter_some, hs]

/-- The registry counts the first of the declarations that were added to it. -/
structure CountsFirst (ns : List Node) (r : Registry) : Prop where
  /-- What was declared already is refused, and the registry stays as it is. -/
  refused : ∀ n m, IsItem n → firstLike? ns n = some m →
    r.add n = .error (.problem (redefinition n m)) ∧ (empty.addAll (ns ++ [n])).1 = r
  /-- What was not declared is added. -/
  added : ∀ n, IsItem n → firstLike? ns n = none →
    ∃ q, r.add n = .ok q ∧ (empty.addAll (ns ++ [n])).1 = q
  type? : ∀ name, r.type? name = (first? ns (.type name)).or (builtinType? name)
  directive? : ∀ name, r.directive? name =
    (first? ns (.directive name)).or (builtinDirective? name)
  schema : r.schema = first? ns .schema
  not_mem_keys : ∀ name, ¬(name ∈ r.types.keys ∧ name ∈ r.scalars.keys)
  extensions : ∀ k name, (r.extensions k).get? name =
    if (extensionsIn ns k name).isEmpty then none else some (extensionsIn ns k name)
  schemaExtensions : r.schemaExtensions = ns.filter fun n => n.kind = .schemaExtension
  /-- A document with these declarations has the problems of those that are refused. -/
  document : ∀ document, document.childrenAt .definitions = ns →
    empty.addDocument document = (r, redefinitions ns)

/-- The first declaration counts, in whatever order declarations are added. -/
theorem addAll_first (hns : ∀ n ∈ ns, IsItem n) : CountsFirst ns (empty.addAll ns).1 := by
  have h := keeps_addAll hns
  refine ⟨fun n m hn hm => ?_, fun n hn hnone => ?_, h.type?, h.directives, h.schema,
    h.not_mem_keys, h.extensions, h.schemaExtensions, fun document hd => ?_⟩
  · have hadd := (h.add hn).refused m hm
    exact ⟨hadd, by rw [addAll_append, addAll_cons_of_problem hadd]; rfl⟩
  · obtain ⟨q, hq, -⟩ := (h.add hn).added hnone
    exact ⟨q, hq, by rw [addAll_append, addAll_cons_of_ok hq]; rfl⟩
  · rw [addDocument, hd, ← problems_addAll hns]

/-- An object type with the name of a scalar that is always there. -/
def objectNamedInt : Node := .mk (.typeDefinition .object) .none [.datum .name (.text "Int")]

/-- An object type takes the place of a scalar, and a scalar declared after it is refused. -/
theorem addAll_first_int :
    (empty.addAll [objectNamedInt]).1.type? (.text "Int") = some objectNamedInt ∧
      (empty.addAll [objectNamedInt]).1.add Scalar.int.definition =
        .error (.problem (.typeRedefinition Scalar.int.definition objectNamedInt)) := by
  have hobject : IsItem objectNamedInt := ⟨rfl, .inr (.inr ⟨.text "Int", rfl⟩)⟩
  have hscalar : IsItem Scalar.int.definition := ⟨rfl, .inr (.inr ⟨.text "Int", rfl⟩)⟩
  have h := addAll_first (List.forall_mem_singleton.2 hobject)
  exact ⟨(h.type? _).trans rfl, (h.refused _ _ hscalar rfl).1⟩

end Registry

end GraphSchema
