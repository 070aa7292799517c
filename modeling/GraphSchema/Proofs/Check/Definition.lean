import GraphSchema.Proofs.Check.Traversal

/-!
# Declarations of directives

What the check finds of the declarations of directives: names that are reserved, arguments that use
the directive itself, and arguments whose types are unknown or cannot be given.

## Main definitions

* `Node.baseType`: the type of an argument without its list and non-null wrappers.
* `Registry.parameters`: the arguments of declared directives.
* `Schema.typeProblem?`: what is wrong with the type of an argument.

## Main statements

* `Node.WellTyped.hasDirective_eq`: whether a directive is applied to a node.
* `Schema.counts_checkDefinitions`: what is found in all declarations.
-/

namespace GraphSchema

open Check (Counts)

namespace Node

theorem innermost_eq {t inner : Node} (hk : t.kind = .listType ∨ t.kind = .nonNullType)
    (hinner : t.child? .type = some inner) : t.innermost = inner.innermost := by
  rw [Node.innermost, if_pos hk]
  split
  · rename_i m hm
    rw [child?_eq hm] at hinner
    cases hinner
    rfl
  · rename_i hno
    exact absurd (content_eq_of_child? hinner) (hno inner)

/-- Below the wrappers of a reference there is a name. -/
theorem IsReference.innermost {t : Node} (h : t.IsReference) :
    ∃ b, t.innermost = .node b ∧ b.IsReference ∧ b.kind = .namedType := by
  rcases or_assoc.2 h.kind_cases with hk | hk
  · obtain ⟨inner, hinner, href⟩ := h.inner hk
    have hsize := size_lt_of_child? (child?_eq hinner)
    rw [innermost_eq hk.symm (child?_eq hinner)]
    exact href.innermost
  · exact ⟨t, by rw [Node.innermost, if_neg (by simp [hk])], h, hk⟩
termination_by t.size

/-- The type of a declared argument without its wrappers. -/
def baseType (i : Node) : Node := (i.content .type).innermost.node?.getD default

/-- The type of a well-typed argument has a name below its wrappers. -/
theorem WellTyped.baseType {i : Node} (h : i.WellTyped) (hk : i.kind = .inputValueDefinition) :
    (i.content .type).innermost = .node i.baseType ∧ i.baseType.HasName := by
  obtain ⟨-, t, ht, -, href⟩ := h.inputValue hk
  obtain ⟨b, hb, hbref, hbk⟩ := href.innermost
  have hbase : (i.content .type).innermost = .node b := by rw [ht]; exact hb
  rw [Node.baseType, hbase]
  exact ⟨rfl, hbref.hasName hbk⟩

/-- The names of the directives that are applied to a well-typed node tell whether there is one of
some name. -/
theorem WellTyped.hasDirective_eq {n : Node} (hn : n.WellTyped)
    (hr : (.directives, .children) ∈ n.kind.layout) (name : Text) :
    n.hasDirective (.text name) =
      .ok ((n.childrenAt .directives).any fun d => d.nameText = name) := by
  have hds := fun d (hd : d ∈ n.childrenAt .directives) => hn.directives hd
  rw [hasDirective, directives_eq hn hr, ok_bind]
  generalize n.childrenAt .directives = ds at hds
  induction ds with
  | nil => rfl
  | cons d ds ih =>
    obtain ⟨hd, hdk⟩ := hds d List.mem_cons_self
    have hget : d.get .name = .ok (.text d.nameText) := (hd.directive hdk).1
    have hnamed : isNamed (.text name) (.node d) = .ok (decide (d.nameText = name)) := by
      rw [isNamed, Data.get, hget, ok_bind, Data.same, Atom.same_text]
      rfl
    rw [List.map_cons, List.anyM, hnamed, ok_bind, List.any_cons]
    cases decide (d.nameText = name) with
    | true => rfl
    | false => exact ih fun e he => hds e (List.mem_cons_of_mem _ he)

end Node

/-- The arguments of all declared directives. -/
def Registry.parameters (r : Registry) : List Node :=
  r.directives.values.flatMap fun d => d.childrenAt .arguments

namespace Schema

open Node

variable {T : Prop} {sort : Problem → Bool} {s : Schema} {d i : Node}

/-- What is wrong with the type of a declared argument. -/
def typeProblem? (s : Schema) (i : Node) : Option Problem :=
  match s.registry.type? (.text i.baseType.nameText) with
  | none => some (.missingType (.text i.baseType.nameText) i (.text i.nameText))
  | some definition =>
    if Registry.isInputDefinition definition then none
    else some (.notInputType i.baseType definition)

theorem exists_of_typeProblem? {p : Problem} (h : s.typeProblem? i = some p) :
    (∃ t n e, p = .missingType t n e) ∨ ∃ t d, p = .notInputType t d := by
  unfold typeProblem? at h
  split at h
  · cases h
    exact .inl ⟨_, _, _, rfl⟩
  · split at h
    · cases h
    · cases h
      exact .inr ⟨_, _, rfl⟩

/-- The check of the type of an argument. -/
theorem checkInputType_eq (hi : i.WellTyped) (hk : i.kind = .inputValueDefinition) :
    s.checkInputType i = (s.typeProblem? i).elim Check.clean Check.found := by
  obtain ⟨hname, t, ht, hget, -⟩ := hi.inputValue hk
  obtain ⟨hbase, hbname⟩ := hi.baseType hk
  rw [ht] at hbase
  have hget' : i.get .name = .ok (.text i.nameText) := hname
  have hbget : i.baseType.get .name = .ok (.text i.baseType.nameText) := hbname
  simp only [checkInputType, hget, ok_bind, hbase, Data.get, hbget, Data.key, Atom.key,
    typeProblem?]
  cases s.registry.type? (.text i.baseType.nameText) with
  | none =>
    simp only [hget', ok_bind]
    rfl
  | some definition =>
    simp only [Check.foundIf]
    cases Registry.isInputDefinition definition <;> rfl

theorem counts_checkInputType (hi : i.WellTyped) (hk : i.kind = .inputValueDefinition) :
    Counts T sort (s.checkInputType i) ((s.typeProblem? i).toList.countP sort) := by
  rw [checkInputType_eq hi hk]
  cases s.typeProblem? i with
  | none => exact Check.counts_clean
  | some p => exact (Check.counts_found p).of_eq (by simp [List.countP_cons])

theorem counts_checkName (hsort : ∀ n, sort (.illegalName n) = false) (hi : i.HasName) :
    Counts T sort (checkName i) 0 := by
  have hget : i.get .name = .ok (.text i.nameText) := hi
  simp only [checkName, hget, ok_bind]
  exact Check.counts_foundIf_zero (hsort _)

theorem counts_checkDeclaredArgument (hname : ∀ n, sort (.illegalName n) = false)
    (hself : ∀ n m, sort (.selfReference n m) = false) (hd : d.HasName) (hi : i.WellTyped)
    (hk : i.kind = .inputValueDefinition) :
    Counts T sort (s.checkDeclaredArgument d (.node i))
      ((s.typeProblem? i).toList.countP sort) := by
  have hr : (.directives, .children) ∈ i.kind.layout := by rw [hk]; simp [Kind.layout]
  have hillegal : Counts T sort (checkName i) 0 := counts_checkName hname (hi.inputValue hk).1
  have hthis : Counts T sort (do
      Check.foundIf (← i.hasDirective d.name) (.selfReference d i)) 0 := by
    rw [hd.name_eq, hi.hasDirective_eq hr, ok_bind]
    exact Check.counts_foundIf_zero (hself _ _)
  exact (hillegal.both ((counts_checkInputType hi hk).both hthis)).of_eq (by omega)

/-- What is found in declarations of directives are problems with the types of their arguments, and
problems of other sorts. -/
theorem counts_checkDefinitions (hr : s.registry.WellTyped)
    (hname : ∀ n, sort (.illegalName n) = false)
    (hself : ∀ n m, sort (.selfReference n m) = false) :
    Counts T sort s.checkDefinitions
      ((s.registry.parameters.filterMap s.typeProblem?).countP sort) := by
  rw [List.filterMap_eq_flatMap_toList, Registry.parameters, List.flatMap_assoc,
    List.countP_flatMap]
  refine Counts.each fun d hd => ?_
  obtain ⟨e, he, rfl⟩ := List.mem_map.1 hd
  have hentry := hr.directives e he
  obtain ⟨⟨hitems, hparams⟩, -⟩ := hentry.wellTyped.directiveDefinition hentry.kind
  have hdname : e.2.HasName := hentry.wellTyped.hasName (by rw [hentry.kind]; simp [Kind.layout])
  have hparameters : Counts T sort
      (Check.each (e.2.childrenAt .arguments) fun i => s.checkDeclaredArgument e.2 (.node i))
      (((e.2.childrenAt .arguments).flatMap fun i => (s.typeProblem? i).toList).countP sort) := by
    rw [List.countP_flatMap]
    exact Counts.each fun i hi =>
      counts_checkDeclaredArgument hname hself hdname (hparams i hi).1 (hparams i hi).2
  rw [checkDefinition, hitems, Check.each_map]
  exact ((counts_checkName hname hdname).both hparameters).of_eq (Nat.zero_add _)

end Schema

end GraphSchema
