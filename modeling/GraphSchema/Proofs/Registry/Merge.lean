import GraphSchema.Proofs.Registry.Step

/-!
# Merging is appending

What a registry passes on to another one are the declarations that it accepted. Those that it
refused would be refused by the other one as well, since the declarations that they repeat come
before them. So merging does the same as adding all declarations of both registries in order.

## Main definitions

* `Registry.accepted`: the declarations that are not refused.

## Main statements

* `Registry.Keeps.definitions_addAll`: a registry holds the declarations that it accepted.
* `Registry.Keeps.addAll_acceptedAfter`: those that were not accepted can be left out.
* `Registry.merge_addAll`: merging two registries.
-/

namespace GraphSchema

namespace Registry

/-- The declarations of a list that have no key of a former one, in this list or before it. -/
def acceptedAfter (before : List Node) : List Node → List Node
  | [] => []
  | n :: rest =>
    if (firstLike? before n).isSome then acceptedAfter (before ++ [n]) rest
    else n :: acceptedAfter (before ++ [n]) rest

/-- The declarations of a list that are not refused. -/
def accepted (ns : List Node) : List Node := acceptedAfter [] ns

variable {ns ms before : List Node} {n m : Node} {r : Registry} {key : Key}

/-! ## What is accepted -/

theorem mem_of_mem_acceptedAfter (h : n ∈ acceptedAfter before ns) : n ∈ ns := by
  fun_induction acceptedAfter before ns with
  | case1 => exact h
  | case2 before m rest _ ih => exact List.mem_cons_of_mem _ (ih h)
  | case3 before m rest _ ih =>
    rcases List.mem_cons.1 h with rfl | h
    · exact List.mem_cons_self
    · exact List.mem_cons_of_mem _ (ih h)

/-- What is accepted has no key of what is before it. -/
theorem firstLike?_of_mem_acceptedAfter (h : n ∈ acceptedAfter before ns) :
    firstLike? before n = none := by
  fun_induction acceptedAfter before ns with
  | case1 => cases h
  | case2 before m rest _ ih => exact (firstLike?_append_eq_none (ih h)).1
  | case3 before m rest hnew ih =>
    rcases List.mem_cons.1 h with rfl | h
    · exact Option.not_isSome_iff_eq_none.1 hnew
    · exact (firstLike?_append_eq_none (ih h)).1

/-- Accepted declarations can stand beside each other. -/
theorem pairwise_acceptedAfter (before ns : List Node) :
    (acceptedAfter before ns).Pairwise Compatible := by
  fun_induction acceptedAfter before ns with
  | case1 => exact .nil
  | case2 before m rest _ ih => exact ih
  | case3 before m rest _ ih =>
    exact .cons (fun n hn => (firstLike?_append_eq_none (firstLike?_of_mem_acceptedAfter hn)).2) ih

/-- The first declaration of a key is accepted where the key is new. -/
theorem mem_acceptedAfter_of_first? (hnew : first? before key = none)
    (h : first? ns key = some n) : n ∈ acceptedAfter before ns := by
  have hskip : ∀ {before m rest}, first? before key = none → keyOf? m ≠ some key →
      first? (m :: rest) key = some n →
      first? (before ++ [m]) key = none ∧ first? rest key = some n := by
    intro before m rest hnew hm h
    rw [first?, List.find?_cons_of_neg (by simpa using hm)] at h
    exact ⟨by rw [first?_append, if_neg hm, hnew]; rfl, h⟩
  fun_induction acceptedAfter before ns with
  | case1 => cases h
  | case2 before m rest hold ih =>
    have hm : keyOf? m ≠ some key := by
      intro hm
      rw [firstLike?_eq hm, hnew] at hold
      cases hold
    exact ih (hskip hnew hm h).1 (hskip hnew hm h).2
  | case3 before m rest _ ih =>
    by_cases hm : keyOf? m = some key
    · rw [first?, List.find?_cons_of_pos (by simpa using hm)] at h
      exact Option.some.inj h ▸ List.mem_cons_self
    · exact List.mem_cons_of_mem _ (ih (hskip hnew hm h).1 (hskip hnew hm h).2)

/-! ## Adding what was accepted -/

/-- A registry holds the declarations that it accepted, in order. -/
theorem Keeps.definitions_addAll (h : Keeps ns r) (hms : ∀ m ∈ ms, IsItem m) :
    (r.addAll ms).1.definitions = r.definitions ++ acceptedAfter ns ms := by
  induction ms generalizing ns r with
  | nil => exact (List.append_nil _).symm
  | cons n ms ih =>
    obtain ⟨hn, hms⟩ := List.forall_mem_cons.1 hms
    cases h.outcome hn with
    | refused m hlike hkeeps hall =>
      rw [hall, ih hkeeps hms, acceptedAfter, hlike]
      rfl
    | added p q hlike _ hq hkeeps hall =>
      rw [hall, ih hkeeps hms, hq, acceptedAfter, hlike, List.append_assoc]
      rfl

/-- Declarations that repeat others before them can be left out, also behind further ones. -/
theorem Keeps.addAll_acceptedAfter (h : Keeps ns r) (hms : ∀ m ∈ ms, IsItem m)
    (hbefore : ∀ n, (firstLike? before n).isSome → (firstLike? ns n).isSome) :
    (r.addAll (acceptedAfter before ms)).1 = (r.addAll ms).1 := by
  induction ms generalizing ns before r with
  | nil => rfl
  | cons n ms ih =>
    obtain ⟨hn, hms⟩ := List.forall_mem_cons.1 hms
    have hbefore' : ∀ m, (firstLike? (before ++ [n]) m).isSome →
        (firstLike? (ns ++ [n]) m).isSome := by
      intro m hm
      rw [firstLike?_append, Option.isSome_or, Bool.or_eq_true] at hm ⊢
      exact hm.imp_left (hbefore m)
    rw [acceptedAfter]
    cases h.outcome hn with
    | refused m hlike hkeeps hall =>
      split
      · rw [hall, ih hkeeps hms hbefore']
      · rw [hall, hall, ih hkeeps hms hbefore']
    | added p q hlike _ _ hkeeps hall =>
      rw [if_neg fun hold => by simpa [hlike] using hbefore n hold, hall, hall,
        ih hkeeps hms hbefore']

/-- Of declarations that can stand beside each other, those have problems that repeat one of those
added before. -/
theorem Keeps.problems_addAll (h : Keeps ns r) (hms : ∀ m ∈ ms, IsItem m)
    (hpairwise : ms.Pairwise Compatible) :
    (r.addAll ms).2 = ms.filterMap fun n => (firstLike? ns n).map (redefinition n) := by
  induction ms generalizing ns r with
  | nil => rfl
  | cons n ms ih =>
    obtain ⟨hn, hms⟩ := List.forall_mem_cons.1 hms
    obtain ⟨hfirst, hpairwise⟩ := List.pairwise_cons.1 hpairwise
    have hrest : (ms.filterMap fun m => (firstLike? (ns ++ [n]) m).map (redefinition m)) =
        ms.filterMap fun m => (firstLike? ns m).map (redefinition m) :=
      List.filterMap_congr fun m hm => by rw [firstLike?_append_of_compatible (hfirst m hm)]
    cases h.outcome hn with
    | refused m hlike hkeeps hall =>
      rw [hall, ih hkeeps hms hpairwise, hrest, List.filterMap_cons, hlike]
      rfl
    | added p q hlike _ _ hkeeps hall =>
      rw [hall, ih hkeeps hms hpairwise, hrest, List.filterMap_cons, hlike]
      rfl

/-- Declarations that can stand beside each other have no problems. -/
theorem problems_addAll_eq_nil (hns : ∀ n ∈ ns, IsItem n) (hpairwise : ns.Pairwise Compatible) :
    (empty.addAll ns).2 = [] := by
  rw [keeps_empty.problems_addAll hns hpairwise, List.filterMap_eq_nil_iff]
  intro n _
  rw [firstLike?_nil, Option.map_none]

/-- Declarations of one list repeat those of another one just if there is a key in both. -/
theorem exists_firstLike?_iff :
    (∃ n ∈ accepted ms, (firstLike? ns n).isSome) ↔
      ∃ key, (first? ns key).isSome ∧ (first? ms key).isSome := by
  constructor
  · rintro ⟨n, hn, hlike⟩
    cases hkey : keyOf? n with
    | none => simp [firstLike?, hkey] at hlike
    | some key =>
      rw [firstLike?_eq hkey] at hlike
      refine ⟨key, hlike, List.find?_isSome.2 ⟨n, mem_of_mem_acceptedAfter hn, by simpa using hkey⟩⟩
  · rintro ⟨key, hns, hms⟩
    obtain ⟨n, hn⟩ := Option.isSome_iff_exists.1 hms
    have hkey : keyOf? n = some key := by simpa using List.find?_some hn
    exact ⟨n, mem_acceptedAfter_of_first? rfl hn, by rwa [firstLike?_eq hkey]⟩

/-! ## Merging -/

/-- Merging two registries does the same as adding the declarations of both to one registry. There
are problems just if there are declarations of both with the same key, one for each of them that the
second registry had accepted. -/
theorem merge_addAll (hns : ∀ n ∈ ns, IsItem n) (hms : ∀ m ∈ ms, IsItem m) :
    ((empty.addAll ns).1.merge (empty.addAll ms).1).1 = (empty.addAll (ns ++ ms)).1 ∧
    (empty.addAll ms).1.definitions = accepted ms ∧
    ((empty.addAll ns).1.merge (empty.addAll ms).1).2 =
      (accepted ms).filterMap (fun n => (firstLike? ns n).map (redefinition n)) ∧
    (((empty.addAll ns).1.merge (empty.addAll ms).1).2 ≠ [] ↔
      ∃ key, (first? ns key).isSome ∧ (first? ms key).isSome) := by
  have hkeeps := keeps_addAll hns
  have hdefinitions : (empty.addAll ms).1.definitions = accepted ms :=
    keeps_empty.definitions_addAll hms
  have haccepted : ∀ m ∈ accepted ms, IsItem m := fun m hm => hms m (mem_of_mem_acceptedAfter hm)
  have hproblems := hkeeps.problems_addAll haccepted (pairwise_acceptedAfter [] ms)
  rw [merge, hdefinitions]
  refine ⟨?_, rfl, hproblems, ?_⟩
  · rw [addAll_append]
    exact hkeeps.addAll_acceptedAfter hms fun n hn => by rw [firstLike?_nil] at hn; cases hn
  · rw [hproblems, ← exists_firstLike?_iff, Ne, List.filterMap_eq_nil_iff]
    simp [Option.isSome_iff_ne_none]

/-- An object type that takes the place of a scalar, merged with two definitions of this scalar. -/
theorem merge_addAll_int :
    ((empty.addAll [objectNamedInt]).1.merge
        (empty.addAll [Scalar.int.definition, Scalar.int.definition]).1).1 =
      (empty.addAll [objectNamedInt, Scalar.int.definition, Scalar.int.definition]).1 ∧
    ((empty.addAll [objectNamedInt]).1.merge
        (empty.addAll [Scalar.int.definition, Scalar.int.definition]).1).2 =
      [.typeRedefinition Scalar.int.definition objectNamedInt] := by
  have hobject : IsItem objectNamedInt := ⟨rfl, .inr (.inr ⟨.text "Int", rfl⟩)⟩
  have hscalar : IsItem Scalar.int.definition := ⟨rfl, .inr (.inr ⟨.text "Int", rfl⟩)⟩
  obtain ⟨heq, -, hproblems, -⟩ := merge_addAll (List.forall_mem_singleton.2 hobject)
    (List.forall_mem_cons.2 ⟨hscalar, List.forall_mem_singleton.2 hscalar⟩)
  exact ⟨heq, hproblems.trans rfl⟩

end Registry

end GraphSchema
