import GraphSchema.Proofs.Registry.First

/-!
# One declaration after the other

A declaration that repeats a former one is refused. Otherwise it is put where its kind belongs.
Declarations that can stand beside each other are all accepted, in whatever order they come.

## Main definitions

* `Registry.Compatible`: two declarations that can stand beside each other.
* `Registry.Places`: where a declaration is put.
* `Registry.Outcome`: what becomes of the first one of some declarations.

## Main statements

* `Registry.IsItem.places`: a declaration is put where its kind belongs.
* `Registry.Keeps.outcome`: what becomes of the first one of some declarations.
-/

namespace GraphSchema

namespace Registry

variable {ns ms : List Node} {n m : Node} {r q : Registry} {key : Key} {name : Atom}

/-! ## Declarations beside each other -/

theorem firstLike?_eq (hkey : keyOf? n = some key) : firstLike? ns n = first? ns key := by
  rw [firstLike?, hkey]
  rfl

theorem firstLike?_nil (n : Node) : firstLike? [] n = none := by
  cases hkey : keyOf? n <;> simp [firstLike?, hkey, first?]

theorem firstLike?_append (ns : List Node) (m n : Node) :
    firstLike? (ns ++ [m]) n =
      (firstLike? ns n).or (if keyOf? n ≠ none ∧ keyOf? m = keyOf? n then some m else none) := by
  cases hkey : keyOf? n with
  | none => simp [firstLike?, hkey]
  | some key => simp [firstLike?_eq hkey, first?_append]

/-- Two declarations that can stand beside each other. -/
def Compatible (n m : Node) : Prop := keyOf? m ≠ none → keyOf? n ≠ keyOf? m

theorem firstLike?_append_of_compatible (h : Compatible m n) :
    firstLike? (ns ++ [m]) n = firstLike? ns n := by
  rw [firstLike?_append, if_neg fun hkey => h hkey.1 hkey.2, Option.or_none]

theorem firstLike?_append_eq_none (h : firstLike? (ns ++ [m]) n = none) :
    firstLike? ns n = none ∧ Compatible m n := by
  rw [firstLike?_append, Option.or_eq_none_iff] at h
  exact ⟨h.1, fun hkey heq => by simp [hkey, heq] at h⟩

/-- Where no declaration repeats another one, each is the first one of its key. -/
theorem first?_eq_some_iff (hpairwise : ns.Pairwise Compatible) :
    first? ns key = some n ↔ n ∈ ns ∧ keyOf? n = some key := by
  constructor
  · exact fun h => ⟨List.mem_of_find?_eq_some h, by simpa using List.find?_some h⟩
  · rintro ⟨hn, hkey⟩
    induction hpairwise with
    | nil => cases hn
    | cons hfirst _ ih =>
      rcases List.mem_cons.1 hn with rfl | hn
      · exact List.find?_cons_of_pos (by simpa using hkey)
      · have hne := hfirst n hn (by simp [hkey])
        exact (List.find?_cons_of_neg (by simpa [hkey] using hne)).trans (ih hn)

/-! ## Steps -/

/-- Where a declaration that is accepted is put. -/
inductive Places (r : Registry) (n : Node) : Registry → Prop
  | type {k : TypeKind} {name : Atom} (kind : n.kind = .typeDefinition k) (key : n.key = .ok name) :
      Places r n (r.putType name n)
  | directive {name : Atom} (kind : n.kind = .directiveDefinition) (key : n.key = .ok name) :
      Places r n { r with
        declaredDirectives := r.declaredDirectives ++ [name]
        directives := r.directives.put name n }
  | schema (kind : n.kind = .schemaDefinition) : Places r n { r with schema := some n }
  | typeExtension {k : TypeKind} {name : Atom} (kind : n.kind = .typeExtension k)
      (key : n.key = .ok name) : Places r n (r.addExtension k name n)
  | schemaExtension (kind : n.kind = .schemaExtension) :
      Places r n { r with schemaExtensions := r.schemaExtensions ++ [n] }

theorem Places.definitions_eq (h : Places r n q) : q.definitions = r.definitions := by
  cases h with
  | type =>
    rw [putType]
    split <;> rfl
  | _ => rfl

theorem IsItem.exists_key (hn : IsItem n) (hdefinition : n.kind ≠ .schemaDefinition)
    (hextension : n.kind ≠ .schemaExtension) : ∃ name, n.key = .ok name :=
  (hn.key.resolve_left hdefinition).resolve_left hextension

theorem IsItem.places (hn : IsItem n) (h : r.place n = .ok q) : Places r n q := by
  cases hk : n.kind with
  | typeDefinition k =>
    obtain ⟨name, hkey⟩ := hn.exists_key (by simp [hk]) (by simp [hk])
    simp only [Registry.place, hk] at h
    rw [place_of_name hkey, addType] at h
    split at h
    · cases h
    · cases h
      exact .type hk hkey
  | directiveDefinition =>
    obtain ⟨name, hkey⟩ := hn.exists_key (by simp [hk]) (by simp [hk])
    simp only [Registry.place, hk] at h
    rw [place_of_name hkey, addDirective] at h
    split at h
    · cases h
    · cases h
      exact .directive hk hkey
  | schemaDefinition =>
    simp only [Registry.place, hk, addSchema] at h
    split at h
    · cases h
    · cases h
      exact .schema hk
  | typeExtension k =>
    obtain ⟨name, hkey⟩ := hn.exists_key (by simp [hk]) (by simp [hk])
    simp only [Registry.place, hk] at h
    rw [place_of_name hkey] at h
    cases h
    exact .typeExtension hk hkey
  | schemaExtension =>
    simp only [Registry.place, hk] at h
    cases h
    exact .schemaExtension hk
  | _ => exact absurd hn.kind (by simp [hk, Kind.isDeclaration])

/-- What becomes of the first one of some declarations: it is refused, or put where it belongs. -/
inductive Outcome (ns : List Node) (n : Node) (r : Registry) : Prop
  | refused (m : Node) (like : firstLike? ns n = some m) (keeps : Keeps (ns ++ [n]) r)
      (addAll : ∀ ms, r.addAll (n :: ms) = ((r.addAll ms).1, redefinition n m :: (r.addAll ms).2))
  | added (p q : Registry) (like : firstLike? ns n = none) (places : Places r n p)
      (q_eq : q = { p with definitions := r.definitions ++ [n] }) (keeps : Keeps (ns ++ [n]) q)
      (addAll : ∀ ms, r.addAll (n :: ms) = q.addAll ms)

theorem Keeps.outcome (h : Keeps ns r) (hn : IsItem n) : Outcome ns n r := by
  cases hlike : firstLike? ns n with
  | some m =>
    exact .refused m hlike (h.refused hlike)
      (addAll_cons_of_problem ((h.add hn).refused m hlike))
  | none =>
    obtain ⟨q, hq, hkeeps⟩ := (h.place hn).added hlike
    have hplaces := hn.places hq
    exact .added q _ hlike hplaces rfl (hkeeps.definitions _)
      (hplaces.definitions_eq ▸ addAll_cons_of_ok (add_of_place hq))

end Registry

end GraphSchema
