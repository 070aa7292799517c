import GraphSchema.Proofs.Registry.Order

/-!
# Lookups in the order of declarations

Where no declaration repeats another one, lookups of types, of extensions and of what belongs to the
schema give the declarations in the order in which they were added. Lookups of scalars and
directives do so with two exceptions: what takes the place of a scalar or directive that has been
there always comes before all that does not, and among these the order is that of what they replace.

## Main definitions

* `Registry.Ranks`: an order in which some names come first.
* `Registry.LooksUp`: what the lookups give.

## Main statements

* `Registry.looksUp_addDocument`: the lookups after declarations that do not repeat each other.
-/

namespace GraphSchema

namespace Registry

/-- Declarations come in their order, but first those that have the names of what has been there
always, in the order of these names. -/
structure Ranks (always : List Atom) (ns values : List Node) : Prop where
  mem : ∀ n ∈ ns, n ∈ values
  sublist_iff : ∀ n m a b, [n, m].Sublist ns → n.key = .ok a → m.key = .ok b →
    ([n, m].Sublist values ↔ always.idxOf a ≤ always.idxOf b)

/-- What the lookups give after declarations of which none repeats another one. -/
structure LooksUp (ns : List Node) (r : Registry) : Prop where
  types : r.types.values = ns.filter fun n => n.kind.isComposite
  typesOf : ∀ k, r.typesOf k = ns.filter fun n => n.kind.isComposite && n.kind.isA k
  schemaExtensions : r.schemaExtensions = ns.filter fun n => n.kind = .schemaExtension
  extensions : ∀ k name, ((r.extensions k).get? name).getD [] = extensionsIn ns k name
  scalars : Ranks builtinScalarNames (ns.filter definesScalar) r.scalars.values
  directives : Ranks builtinDirectiveNames (ns.filter fun n => n.kind = .directiveDefinition)
    r.directives.values

variable {p : Kind → Bool} {ns : List Node} {n m : Node} {r : Registry} {name : Atom}

/-! ## Two names -/

section Names

variable {always kept others : List Atom} {a b : Atom}

theorem pairwise_idxOf {names : List Atom} (h : names.Nodup) :
    names.Pairwise fun a b => names.idxOf a < names.idxOf b := by
  rw [List.pairwise_iff_getElem]
  intro i j hi hj hij
  rwa [h.idxOf_getElem i hi, h.idxOf_getElem j hj]

theorem pair_sublist_or {names : List Atom} (ha : a ∈ names) (hb : b ∈ names) (hne : a ≠ b) :
    [a, b].Sublist names ∨ [b, a].Sublist names := by
  induction names with
  | nil => cases ha
  | cons c names ih =>
    by_cases hac : a = c
    · have hb := (List.mem_cons.1 hb).resolve_left fun h => hne (hac.trans h.symm)
      exact .inl (hac ▸ .cons_cons _ (List.singleton_sublist.2 hb))
    · have ha := (List.mem_cons.1 ha).resolve_left hac
      by_cases hbc : b = c
      · exact .inr (hbc ▸ .cons_cons _ (List.singleton_sublist.2 ha))
      · have hb := (List.mem_cons.1 hb).resolve_left hbc
        exact (ih ha hb).imp (.cons _) (.cons _)

/-- Where the names that have been there always are put first, the order is that of these names, and
behind them as before. -/
theorem pairwise_append_filter (others : List Atom) (halways : always.Nodup)
    (hkept : kept.Sublist always) :
    (kept ++ others.filter (· ∉ always)).Pairwise fun a b =>
      always.idxOf a < always.idxOf b ∨
        always.idxOf a = always.idxOf b ∧ [a, b].Sublist others := by
  refine List.pairwise_append.2 ⟨?_, ?_, ?_⟩
  · exact ((pairwise_idxOf halways).sublist hkept).imp .inl
  · refine List.pairwise_iff_forall_sublist.2 fun {a b} hsub => .inr ⟨?_, ?_⟩
    · have hnot : ∀ c ∈ [a, b], c ∉ always := fun c hc => by
        simpa using (List.mem_filter.1 (hsub.subset hc)).2
      rw [List.idxOf_eq_length (hnot a (by simp)), List.idxOf_eq_length (hnot b (by simp))]
    · exact hsub.trans List.filter_sublist
  · intro a ha b hb
    have hnot : b ∉ always := by simpa using (List.mem_filter.1 hb).2
    exact .inl (List.idxOf_eq_length hnot ▸ List.idxOf_lt_length_of_mem (hkept.subset ha))

/-- Two names that come in some order keep it just if the second one is not put first. -/
theorem pair_sublist_iff (halways : always.Nodup) (hothers : others.Nodup)
    (hkept : kept.Sublist always) (hab : [a, b].Sublist others)
    (ha : a ∈ kept ++ others.filter (· ∉ always)) (hb : b ∈ kept ++ others.filter (· ∉ always)) :
    [a, b].Sublist (kept ++ others.filter (· ∉ always)) ↔ always.idxOf a ≤ always.idxOf b := by
  have hsorted := pairwise_append_filter others halways hkept
  rw [List.pairwise_iff_forall_sublist] at hsorted
  constructor
  · intro hsub
    exact (hsorted hsub).elim Nat.le_of_lt fun h => Nat.le_of_eq h.1
  · intro hle
    have hlt := pairwise_idxOf hothers
    rw [List.pairwise_iff_forall_sublist] at hlt
    have hne : a ≠ b := fun heq => Nat.lt_irrefl _ (heq ▸ hlt hab)
    rcases pair_sublist_or ha hb hne with hsub | hsub
    · exact hsub
    · -- The other way round: by their places among the first ones, or as they came before.
      rcases hsorted hsub with h | ⟨-, h⟩
      · exact absurd h (Nat.not_lt_of_le hle)
      · exact absurd (hlt hab) (Nat.lt_asymm (hlt h))

end Names

/-! ## Names of declarations -/

/-- Declarations of which none repeats another one have different names. -/
theorem nodup_names {f : Atom → Key} (hpairwise : ns.Pairwise Compatible)
    (hkey : ∀ n name, p n.kind → n.key = .ok name → keyOf? n = some (f name)) :
    (names p ns).Nodup := by
  rw [names, List.Nodup, List.pairwise_filterMap, List.pairwise_filter]
  refine hpairwise.imp fun {n m} hcompatible hn hm a ha b hb heq => ?_
  have hn := hkey n a hn (toOption_key_eq_some.1 ha)
  have hm := hkey m b hm (toOption_key_eq_some.1 hb)
  exact hcompatible (by simp [hm]) (by rw [hn, hm, heq])

/-- What the names of declarations stand for are the declarations, in their order. -/
theorem filterMap_names {get : Atom → Option Node}
    (h : ∀ n ∈ ns, p n.kind → ∃ name, n.key = .ok name ∧ get name = some n) :
    (names p ns).filterMap get = ns.filter fun n => p n.kind := by
  rw [names, List.filterMap_filterMap]
  refine (List.filterMap_congr fun n hn => ?_).trans List.filterMap_some
  obtain ⟨hn, hp⟩ := List.mem_filter.1 hn
  obtain ⟨name, hname, hget⟩ := h n hn hp
  rw [hname]
  exact hget

theorem pair_sublist_names {a b : Atom} (h : [n, m].Sublist (ns.filter fun n => p n.kind))
    (ha : n.key = .ok a) (hb : m.key = .ok b) : [a, b].Sublist (names p ns) := by
  have hpair : [n, m].filterMap (fun n => n.key.toOption) = [a, b] := by
    simp [ha, hb, Except.toOption]
  exact hpair ▸ h.filterMap _

/-! ## What is found under a name -/

theorem key_of_keyOf? {key : Key} (h : keyOf? n = some key)
    (hname : key = .type name ∨ key = .directive name) : n.key = .ok name := by
  unfold keyOf? at h
  split at h
  · obtain ⟨a, ha, rfl⟩ := Option.map_eq_some_iff.1 h
    rcases hname with hname | hname <;> cases hname
    exact toOption_key_eq_some.1 ha
  · obtain ⟨a, ha, rfl⟩ := Option.map_eq_some_iff.1 h
    rcases hname with hname | hname <;> cases hname
    exact toOption_key_eq_some.1 ha
  · cases h
    rcases hname with hname | hname <;> cases hname
  · cases h

theorem key_of_first? {key : Key} (h : first? ns key = some n)
    (hname : key = .type name ∨ key = .directive name) : n.key = .ok name :=
  key_of_keyOf? (by simpa using List.find?_some h) hname

theorem Keeps.key_of_scalars (h : Keeps ns r) (hn : r.scalars.get? name = some n) :
    n.key = .ok name := by
  rw [h.scalars] at hn
  rcases Option.or_eq_some_iff.1 (Option.filter_eq_some_iff.1 hn).1 with hn | ⟨-, hn⟩
  · exact key_of_first? hn (.inl rfl)
  · obtain ⟨s, hs, rfl⟩ := Option.map_eq_some_iff.1 hn
    have hname : Atom.text s.name = name := by simpa using List.find?_some hs
    exact hname ▸ (entry_definition s).key

theorem Keeps.key_of_directives (h : Keeps ns r) (hn : r.directives.get? name = some n) :
    n.key = .ok name := by
  rw [h.directives] at hn
  rcases Option.or_eq_some_iff.1 hn with hn | ⟨-, hn⟩
  · exact key_of_first? hn (.inr rfl)
  · exact toOption_key_eq_some.1 (by simpa using List.find?_some hn)

/-! ## Lookups -/

theorem nodup_builtinScalarNames : builtinScalarNames.Nodup := by decide

set_option maxRecDepth 10000 in
/-- The text of these directives is read as a list of characters. -/
theorem nodup_builtinDirectiveNames : builtinDirectiveNames.Nodup := by
  have h : builtinDirectivesText = _ := ofString_ofList _
  change (Table.keys ((declarations builtinDirectivesText).filterMap named?)).Nodup
  rw [h]
  decide +kernel

section Nodup

variable (hpairwise : ns.Pairwise Compatible)

include hpairwise

theorem nodup_compositeNames : (names Kind.isComposite ns).Nodup := by
  refine nodup_names (f := .type) hpairwise fun n name hp hkey => ?_
  cases hk : n.kind with
  | typeDefinition k => exact keyOf?_typeDefinition hk hkey
  | _ => rw [hk] at hp; cases hp

theorem nodup_scalarNames : (names (· = .typeDefinition .scalar) ns).Nodup :=
  nodup_names hpairwise fun _ _ hp hkey => keyOf?_typeDefinition (of_decide_eq_true hp) hkey

theorem nodup_directiveNames : (names (· = .directiveDefinition) ns).Nodup :=
  nodup_names hpairwise fun _ _ hp hkey => keyOf?_directiveDefinition (of_decide_eq_true hp) hkey

end Nodup

/-- Names that have been there always, and others. -/
theorem nodup_append_filter {always kept others : List Atom} (halways : always.Nodup)
    (hkept : kept.Sublist always) (hothers : others.Nodup) :
    (kept ++ others.filter (· ∉ always)).Nodup := by
  refine List.nodup_append.2 ⟨halways.sublist hkept, hothers.filter _, fun a ha b hb heq => ?_⟩
  have hnot : b ∉ always := by simpa using (List.mem_filter.1 hb).2
  exact hnot (heq ▸ hkept.subset ha)

theorem Lists.nodup_types (h : Lists ns r) (hpairwise : ns.Pairwise Compatible) :
    r.types.keys.Nodup :=
  h.types ▸ nodup_compositeNames hpairwise

theorem Lists.nodup_scalars (h : Lists ns r) (hpairwise : ns.Pairwise Compatible) :
    r.scalars.keys.Nodup :=
  h.scalars ▸ nodup_append_filter nodup_builtinScalarNames List.filter_sublist
    (nodup_scalarNames hpairwise)

theorem Lists.nodup_directives (h : Lists ns r) (hpairwise : ns.Pairwise Compatible) :
    r.directives.keys.Nodup :=
  h.directives ▸ nodup_append_filter nodup_builtinDirectiveNames (List.Sublist.refl _)
    (nodup_directiveNames hpairwise)

theorem Lists.nodup_extensions (h : Lists ns r) (k : TypeKind) : (r.extensions k).keys.Nodup :=
  h.extensions k ▸ Table.nodup_eraseDups _

/-- The values of a table in which names that have been there always come first. -/
theorem ranks_values {t : Table Atom Node} {always kept : List Atom} (halways : always.Nodup)
    (hkept : kept.Sublist always) (hnames : (names p ns).Nodup)
    (hkeys : t.keys = kept ++ (names p ns).filter (· ∉ always))
    (hkey : ∀ name n, t.get? name = some n → n.key = .ok name)
    (hget : ∀ n ∈ ns, p n.kind → ∃ name, n.key = .ok name ∧ t.get? name = some n) :
    Ranks always (ns.filter fun n => p n.kind) t.values where
  mem n hn := by
    obtain ⟨hn, hp⟩ := List.mem_filter.1 hn
    obtain ⟨name, -, hname⟩ := hget n hn hp
    exact List.mem_map.2 ⟨(name, n), Table.mem_of_get? hname, rfl⟩
  sublist_iff n m a b hsub ha hb := by
    have hnodup : t.keys.Nodup := hkeys ▸ nodup_append_filter halways hkept hnames
    have hfound : ∀ l ∈ [n, m], ∀ c, l.key = .ok c → t.get? c = some l := by
      intro l hl c hc
      obtain ⟨hl, hp⟩ := List.mem_filter.1 (hsub.subset hl)
      obtain ⟨name, hname, hget⟩ := hget l hl hp
      rwa [Except.ok.inj (hname.symm.trans hc)] at hget
    have hn := hfound n (by simp) a ha
    have hm := hfound m (by simp) b hb
    have hab := pair_sublist_names hsub ha hb
    have hmem : ∀ c l, t.get? c = some l → c ∈ t.keys :=
      fun c l h => Table.mem_keys_iff.2 (by simp [h])
    rw [t.pair_sublist_values_iff hnodup (f := fun n => n.key.toOption)
      (fun k a h => toOption_key_eq_some.2 (hkey k a h)) hn hm]
    have ha := hmem a n hn
    have hb := hmem b m hm
    rw [hkeys] at ha hb ⊢
    exact pair_sublist_iff halways hnames hkept hab ha hb

section Items

variable (h : Keeps ns r) (hns : ∀ n ∈ ns, IsItem n) (hpairwise : ns.Pairwise Compatible)

include h hns hpairwise

theorem Keeps.get?_types (hn : n ∈ ns) (hk : n.kind.isComposite) :
    ∃ name, n.key = .ok name ∧ r.types.get? name = some n := by
  cases hkind : n.kind with
  | typeDefinition k =>
    obtain ⟨name, hkey⟩ := (hns n hn).exists_key (by simp [hkind]) (by simp [hkind])
    have hfirst := (first?_eq_some_iff hpairwise).2 ⟨hn, keyOf?_typeDefinition hkind hkey⟩
    refine ⟨name, hkey, ?_⟩
    rw [h.types, hfirst, Option.filter_some_pos]
    rw [hkind] at hk
    simpa [definesScalar, hkind, Kind.isComposite] using hk
  | _ => rw [hkind] at hk; cases hk

theorem Keeps.get?_scalars (hn : n ∈ ns) (hk : n.kind = .typeDefinition .scalar) :
    ∃ name, n.key = .ok name ∧ r.scalars.get? name = some n := by
  obtain ⟨name, hkey⟩ := (hns n hn).exists_key (by simp [hk]) (by simp [hk])
  have hfirst := (first?_eq_some_iff hpairwise).2 ⟨hn, keyOf?_typeDefinition hk hkey⟩
  refine ⟨name, hkey, ?_⟩
  rw [h.scalars, hfirst, Option.some_or, Option.filter_some_pos (by simp [definesScalar, hk])]

theorem Keeps.get?_directives (hn : n ∈ ns) (hk : n.kind = .directiveDefinition) :
    ∃ name, n.key = .ok name ∧ r.directives.get? name = some n := by
  obtain ⟨name, hkey⟩ := (hns n hn).exists_key (by simp [hk]) (by simp [hk])
  have hfirst := (first?_eq_some_iff hpairwise).2 ⟨hn, keyOf?_directiveDefinition hk hkey⟩
  exact ⟨name, hkey, by rw [h.directives, hfirst, Option.some_or]⟩

/-- The lookups of a registry that holds declarations of which none repeats another one. -/
theorem Keeps.looksUp (hlists : Lists ns r) : LooksUp ns r := by
  have htypes : r.types.values = ns.filter fun n => n.kind.isComposite := by
    rw [r.types.values_eq (hlists.nodup_types hpairwise), hlists.types]
    exact filterMap_names fun n hn hk => h.get?_types hns hpairwise hn hk
  refine ⟨htypes, fun k => ?_, h.schemaExtensions, fun k name => ?_, ?_, ?_⟩
  · rw [typesOf, htypes, List.filter_filter]
    exact List.filter_congr fun n _ => Bool.and_comm _ _
  · rw [h.extensions]
    split
    · exact (List.isEmpty_iff.1 ‹_›).symm
    · rfl
  · exact ranks_values (p := (· = .typeDefinition .scalar)) nodup_builtinScalarNames
      List.filter_sublist (nodup_scalarNames hpairwise) hlists.scalars
      (fun _ _ => h.key_of_scalars) fun n hn hk =>
        h.get?_scalars hns hpairwise hn (of_decide_eq_true hk)
  · exact ranks_values (p := (· = .directiveDefinition)) nodup_builtinDirectiveNames
      (List.Sublist.refl _) (nodup_directiveNames hpairwise) hlists.directives
      (fun _ _ => h.key_of_directives) fun n hn hk =>
        h.get?_directives hns hpairwise hn (of_decide_eq_true hk)

end Items

/-- The lookups after a document in which no declaration repeats another one. Two scalars, or two
directives, come in the order of the document just if the second one does not take the place of
something that has been there always and stands before what the first one takes the place of. -/
theorem looksUp_addDocument (document : Node)
    (hns : ∀ n ∈ document.childrenAt .definitions, IsItem n)
    (hpairwise : (document.childrenAt .definitions).Pairwise Compatible) :
    LooksUp (document.childrenAt .definitions) (empty.addDocument document).1 :=
  (keeps_addAll hns).looksUp hns hpairwise (lists_addAll hns hpairwise)

/-- A document that declares two scalars that are always there, the other way round. -/
def floatAndInt : Node :=
  .mk .document .none [.children .definitions [Scalar.float.definition, Scalar.int.definition]]

/-- The scalar that is declared first is looked up last. -/
theorem looksUp_addDocument_floatAndInt :
    [Scalar.float.definition, Scalar.int.definition].Sublist
        (floatAndInt.childrenAt .definitions) ∧
      ¬ [Scalar.float.definition, Scalar.int.definition].Sublist
        (empty.addDocument floatAndInt).1.scalars.values := by
  have hitem : ∀ n ∈ [Scalar.float.definition, Scalar.int.definition], IsItem n :=
    List.forall_mem_cons.2 ⟨⟨rfl, .inr (.inr ⟨.text "Float", rfl⟩)⟩,
      List.forall_mem_singleton.2 ⟨rfl, .inr (.inr ⟨.text "Int", rfl⟩)⟩⟩
  have hpairwise : [Scalar.float.definition, Scalar.int.definition].Pairwise Compatible :=
    List.pairwise_pair.2 fun _ => by decide
  have hall : [Scalar.float.definition, Scalar.int.definition].filter definesScalar =
    [Scalar.float.definition, Scalar.int.definition] := rfl
  have h := (looksUp_addDocument floatAndInt hitem hpairwise).scalars.sublist_iff
    Scalar.float.definition Scalar.int.definition (.text "Float") (.text "Int")
    (hall ▸ List.Sublist.refl _) rfl rfl
  exact ⟨List.Sublist.refl _, fun hsub => absurd (h.1 hsub) (by decide)⟩

end Registry

end GraphSchema
