import GraphSchema.Proofs.Registry.Merge
import GraphSchema.Registry.Walk

/-!
# When merging a registry with itself ends

A definition that a registry holds is refused when it is added again, but an extension is always
accepted. So a registry without extensions is left as it is, with a problem for each declaration,
and the loop ends behind the last one. In a registry with an extension, each extension that is
walked over is appended, and the end of the list is never reached.

## Main definitions

* `Registry.Reachable`: the registries that additions lead to.
* `Registry.isExtension`: whether a declaration extends others.
* `Registry.Holds`: what a registry knows of a declaration that was added to it.
* `Registry.Walk.Advanced`: the loop after some turns.

## Main statements

* `Registry.Reachable.holds`: a registry knows its declarations.
* `Registry.Walk.run_refused`: the loop where every declaration is refused.
* `Registry.Walk.exists_run`: the declarations that the loop appends.
* `Registry.Walk.finished_iff`: the loop ends just if there are no extensions.
-/

namespace GraphSchema

namespace Registry

/-- The registries that additions lead to. -/
inductive Reachable : Registry → Prop
  | empty : Reachable empty
  | add {r q : Registry} {n : Node} (hr : Reachable r) (h : r.add n = .ok q) : Reachable q

/-- Whether a declaration extends a type or the schema. -/
def isExtension (n : Node) : Bool :=
  match n.kind with
  | .typeExtension _ | .schemaExtension => true
  | _ => false

/-- What a registry knows of a declaration that was added to it. -/
inductive Holds (r : Registry) (n : Node) : Prop
  | type {name : Atom} (kind : (∃ k, n.kind = .typeDefinition k) ∨ n.kind = .bare .typeDefinition)
      (key : n.key = .ok name) (declared : name ∈ r.declaredTypes)
  | directive {name : Atom} (kind : n.kind = .directiveDefinition) (key : n.key = .ok name)
      (declared : name ∈ r.declaredDirectives)
  | schema (kind : n.kind = .schemaDefinition) (declared : r.schema.isSome)
  | typeExtension {k : TypeKind} {name : Atom} (kind : n.kind = .typeExtension k)
      (key : n.key = .ok name)
  | schemaExtension (kind : n.kind = .schemaExtension)

/-- Further declarations take nothing away. -/
structure Grows (r q : Registry) : Prop where
  types : r.declaredTypes ⊆ q.declaredTypes
  directives : r.declaredDirectives ⊆ q.declaredDirectives
  schema : r.schema.isSome → q.schema.isSome

variable {r q : Registry} {n m : Node} {ns : List Node}

/-! ## What is held -/

theorem Holds.mono (h : Holds r n) (hq : Grows r q) : Holds q n := by
  cases h with
  | type kind key declared => exact .type kind key (hq.types declared)
  | directive kind key declared => exact .directive kind key (hq.directives declared)
  | schema kind declared => exact .schema kind (hq.schema declared)
  | typeExtension kind key => exact .typeExtension kind key
  | schemaExtension kind => exact .schemaExtension kind

theorem grows_putType (r : Registry) (name : Atom) (n : Node) :
    name ∈ (r.putType name n).declaredTypes ∧ Grows r (r.putType name n) ∧
      (r.putType name n).definitions = r.definitions := by
  have hnames : r.declaredTypes ⊆ r.declaredTypes ++ [name] := List.subset_append_left _ _
  rw [putType]
  split <;> exact ⟨by simp, ⟨hnames, List.Subset.refl _, id⟩, rfl⟩

/-- A declaration that has its place is held, beside those that were held before. -/
theorem place_ok (h : r.place n = .ok q) :
    Holds q n ∧ Grows r q ∧ q.definitions = r.definitions := by
  cases place_eq_ok_iff.1 h with
  | type kind key =>
    obtain ⟨hname, hgrows⟩ := grows_putType r _ n
    exact ⟨.type kind key hname, hgrows⟩
  | directive kind key =>
    exact ⟨.directive kind key (by simp), ⟨List.Subset.refl _, by simp, id⟩, rfl⟩
  | schema kind =>
    exact ⟨.schema kind rfl, ⟨List.Subset.refl _, List.Subset.refl _, fun _ => rfl⟩, rfl⟩
  | typeExtension kind key =>
    exact ⟨.typeExtension kind key, ⟨List.Subset.refl _, List.Subset.refl _, id⟩, rfl⟩
  | schemaExtension kind =>
    exact ⟨.schemaExtension kind, ⟨List.Subset.refl _, List.Subset.refl _, id⟩, rfl⟩

/-- A declaration that is added is the last one of the registry. -/
theorem add_ok (h : r.add n = .ok q) :
    Holds q n ∧ Grows r q ∧ q.definitions = r.definitions ++ [n] := by
  cases hp : r.place n with
  | error e =>
    rw [add_of_place_error hp] at h
    cases h
  | ok p =>
    rw [add_of_place hp] at h
    cases h
    obtain ⟨hholds, hgrows, hdefinitions⟩ := place_ok hp
    have hsame : Grows p { p with definitions := p.definitions ++ [n] } :=
      ⟨List.Subset.refl _, List.Subset.refl _, id⟩
    exact ⟨hholds.mono hsame, ⟨hgrows.types, hgrows.directives, hgrows.schema⟩,
      by rw [hdefinitions]⟩

/-- A registry knows its declarations. -/
theorem Reachable.holds (h : Reachable r) : ∀ n ∈ r.definitions, Holds r n := by
  induction h with
  | empty => exact fun n hn => nomatch hn
  | add hr h ih =>
    obtain ⟨hholds, hgrows, hdefinitions⟩ := add_ok h
    intro n hn
    rw [hdefinitions, List.mem_append, List.mem_singleton] at hn
    rcases hn with hn | rfl
    · exact (ih n hn).mono hgrows
    · exact hholds

/-- So are registries that were built from documents and merged. -/
theorem Reachable.addAll (h : Reachable r) (ns : List Node) : Reachable (r.addAll ns).1 := by
  induction ns generalizing r with
  | nil => exact h
  | cons n ns ih =>
    rw [Registry.addAll]
    split
    · rename_i hq
      exact ih (h.add hq)
    · exact ih h
    · exact ih h

/-- A definition that is held is refused. -/
theorem Holds.refused (h : Holds r n) (hn : isExtension n = false) :
    ∃ p, r.add n = .error (.problem p) := by
  suffices hplace : ∃ p, r.place n = .error (.problem p) from
    hplace.imp fun p hp => add_of_place_error hp
  cases h with
  | type kind key declared =>
    rcases kind with ⟨k, hk⟩ | hk
    all_goals
      simp only [place, hk]
      rw [place_of_name key, addType, if_pos declared]
      exact ⟨_, rfl⟩
  | directive kind key declared =>
    simp only [place, kind]
    rw [place_of_name key, addDirective, if_pos declared]
    exact ⟨_, rfl⟩
  | schema kind declared =>
    obtain ⟨existing, hexisting⟩ := Option.isSome_iff_exists.1 declared
    simp only [place, kind, addSchema, hexisting]
    exact ⟨_, rfl⟩
  | typeExtension kind => simp [isExtension, kind] at hn
  | schemaExtension kind => simp [isExtension, kind] at hn

/-- An extension that is held is accepted once more. -/
theorem Holds.accepted (h : Holds r n) (hn : isExtension n = true) : ∃ q, r.add n = .ok q := by
  suffices hplace : ∃ q, r.place n = .ok q from
    let ⟨_, hq⟩ := hplace
    ⟨_, add_of_place hq⟩
  cases h with
  | type kind => rcases kind with ⟨k, hk⟩ | hk <;> simp [isExtension, hk] at hn
  | directive kind => simp [isExtension, kind] at hn
  | schema kind => simp [isExtension, kind] at hn
  | typeExtension kind key => exact ⟨_, place_eq_ok_iff.2 (.typeExtension kind key)⟩
  | schemaExtension kind => exact ⟨_, place_eq_ok_iff.2 (.schemaExtension kind)⟩

/-! ## Where everything is refused -/

theorem problems_addAll_append (r : Registry) (ns ms : List Node) :
    (r.addAll (ns ++ ms)).2 = (r.addAll ns).2 ++ ((r.addAll ns).1.addAll ms).2 := by
  induction ns generalizing r with
  | nil => rfl
  | cons n ns ih =>
    rw [List.cons_append, Registry.addAll, Registry.addAll]
    cases r.add n with
    | ok q => exact ih q
    | error e =>
      cases e with
      | problem p => exact congrArg (p :: ·) (ih r)
      | failure f => exact ih r

theorem addAll_refused (h : ∀ n ∈ ns, ∃ p, r.add n = .error (.problem p)) :
    (r.addAll ns).1 = r ∧ (r.addAll ns).2.length = ns.length := by
  induction ns with
  | nil => exact ⟨rfl, rfl⟩
  | cons n ns ih =>
    obtain ⟨⟨p, hp⟩, hns⟩ := List.forall_mem_cons.1 h
    obtain ⟨hsame, hlength⟩ := ih hns
    rw [addAll_cons_of_problem hp]
    exact ⟨hsame, congrArg (· + 1) hlength⟩

namespace Walk

variable {v w : Walk} {turns : Nat} {ps : List Problem}

theorem step_of_ok (hn : w.registry.definitions[w.position]? = some n)
    (hq : w.registry.add n = .ok q) : w.step = .next ⟨q, w.position + 1, w.problems⟩ := by
  simp only [step, hn, hq]

theorem step_of_problem {p : Problem} (hn : w.registry.definitions[w.position]? = some n)
    (hp : w.registry.add n = .error (.problem p)) :
    w.step = .next ⟨w.registry, w.position + 1, w.problems ++ [p]⟩ := by
  simp only [step, hn, hp]

theorem step_of_length_le (h : w.registry.definitions.length ≤ w.position) :
    w.step = .finished w.registry w.problems := by
  simp only [step, List.getElem?_eq_none h]

theorem run_succ (h : w.run turns = .next v) : w.run (turns + 1) = v.step := by
  induction turns generalizing w with
  | zero =>
    cases h
    rw [run]
    cases v.step <;> rfl
  | succ turns ih =>
    rw [run] at h ⊢
    cases hw : w.step with
    | next u =>
      rw [hw] at h
      exact ih h
    | _ =>
      rw [hw] at h
      cases h

/-- No further turns follow the end of the loop. -/
theorem run_add (h : w.run turns = .finished q ps) (more : Nat) :
    w.run (turns + more) = .finished q ps := by
  induction turns generalizing w with
  | zero => cases h
  | succ turns ih =>
    rw [Nat.succ_add, run]
    rw [run] at h
    cases hw : w.step with
    | next u =>
      rw [hw] at h
      exact ih h
    | _ =>
      rw [hw] at h
      exact h

/-- Where every declaration is refused, each turn adds a problem and nothing else. -/
theorem run_refused (h : ∀ n ∈ r.definitions, ∃ p, r.add n = .error (.problem p))
    (hturns : turns ≤ r.definitions.length) :
    (start r).run turns = .next ⟨r, turns, (r.addAll (r.definitions.take turns)).2⟩ := by
  induction turns with
  | zero => rfl
  | succ turns ih =>
    have hget : r.definitions[turns]? = some r.definitions[turns] := List.getElem?_eq_getElem hturns
    obtain ⟨p, hp⟩ := h _ (List.getElem_mem hturns)
    have hsame : (r.addAll (r.definitions.take turns)).1 = r :=
      (addAll_refused fun n hn => h n (List.mem_of_mem_take hn)).1
    rw [run_succ (ih (by omega)), step_of_problem hget hp, List.take_succ_eq_append_getElem hturns,
      problems_addAll_append, hsame, addAll_cons_of_problem hp]
    rfl

/-- The loop ends behind the last declaration where every declaration is refused. -/
theorem run_refused_iff (h : ∀ n ∈ r.definitions, ∃ p, r.add n = .error (.problem p)) :
    (start r).run turns = .finished q ps ↔
      r.definitions.length < turns ∧ q = r ∧ ps = (r.merge r).2 := by
  have hlast : (start r).run (r.definitions.length + 1) = .finished r (r.merge r).2 := by
    rw [run_succ (run_refused h (Nat.le_refl _)), step_of_length_le (Nat.le_refl _),
      List.take_length, merge]
  constructor
  · intro hq
    by_cases hturns : turns ≤ r.definitions.length
    · rw [run_refused h hturns] at hq
      cases hq
    · obtain ⟨more, rfl⟩ := Nat.exists_eq_add_of_lt (Nat.lt_of_not_le hturns)
      rw [show r.definitions.length + more + 1 = r.definitions.length + 1 + more by omega,
        run_add hlast] at hq
      cases hq
      exact ⟨by omega, rfl, rfl⟩
  · rintro ⟨hturns, rfl, rfl⟩
    obtain ⟨more, rfl⟩ := Nat.exists_eq_add_of_le hturns
    exact run_add hlast more

/-! ## Where an extension is held -/

/-- The loop after some turns: the extensions that were walked over stand behind the declarations
that were there at first. -/
structure Advanced (r : Registry) (turns : Nat) (w : Walk) : Prop where
  reachable : Reachable w.registry
  position : w.position = turns
  definitions : w.registry.definitions =
    r.definitions ++ (w.registry.definitions.take turns).filter isExtension

/-- If there is an extension, then there is a declaration that was not walked over. -/
theorem Advanced.lt_length (h : Advanced r turns w) (hr : r.definitions.any isExtension) :
    turns < w.registry.definitions.length := by
  by_contra hlength
  have hfilter := h.definitions
  rw [List.take_of_length_le (Nat.le_of_not_lt hlength)] at hfilter
  -- Behind the declarations of `r` there would be all extensions, those among the former included.
  have hcount := congrArg (List.countP isExtension) hfilter
  rw [List.countP_append, List.countP_filter] at hcount
  have hnone : r.definitions.countP isExtension = 0 := by simpa using hcount
  obtain ⟨n, hn, hext⟩ := List.any_eq_true.1 hr
  exact List.countP_eq_zero.1 hnone n hn hext

theorem Advanced.step (h : Advanced r turns w) (hlength : turns < w.registry.definitions.length) :
    ∃ v, w.step = .next v ∧ Advanced r (turns + 1) v := by
  obtain ⟨hreachable, rfl, hdefinitions⟩ := h
  have hget := List.getElem?_eq_getElem hlength
  have hholds := hreachable.holds _ (List.getElem_mem hlength)
  generalize w.registry.definitions[w.position] = n at hget hholds
  cases hn : isExtension n with
  | false =>
    obtain ⟨p, hp⟩ := hholds.refused hn
    refine ⟨_, step_of_problem hget hp, hreachable, rfl, ?_⟩
    rw [List.take_add_one, hget, List.filter_append]
    simpa [hn] using hdefinitions
  | true =>
    obtain ⟨q, hq⟩ := hholds.accepted hn
    refine ⟨_, step_of_ok hget hq, hreachable.add hq, rfl, ?_⟩
    have happend := (add_ok hq).2.2
    rw [happend, List.take_append_of_le_length hlength, List.take_add_one, hget, List.filter_append,
      ← List.append_assoc, ← hdefinitions]
    simp [hn]

/-- The loop goes on if there is an extension, and appends each one that it comes across. -/
theorem exists_run (h : Reachable r) (hr : r.definitions.any isExtension) (turns : Nat) :
    ∃ w, (start r).run turns = .next w ∧ Advanced r turns w := by
  induction turns with
  | zero => exact ⟨start r, rfl, h, rfl, by simp [start]⟩
  | succ turns ih =>
    obtain ⟨w, hw, hadvanced⟩ := ih
    obtain ⟨v, hv, hnext⟩ := hadvanced.step (hadvanced.lt_length hr)
    exact ⟨v, (run_succ hw).trans hv, hnext⟩

/-! ## The end of the loop -/

/-- Merging a registry with itself ends just if it holds no extension. Then it takes one turn for
each declaration and a last one, leaves the registry as it is and has a problem for each
declaration, as merging an equal registry has. With an extension there is another turn after any
number of turns, and the extensions that were walked over are held once more. -/
theorem finished_iff (h : Reachable r) :
    ((∃ turns q ps, (start r).run turns = .finished q ps) ↔ ¬r.definitions.any isExtension) ∧
    (¬r.definitions.any isExtension →
      (r.merge r).1 = r ∧ (r.merge r).2.length = r.definitions.length ∧
      ∀ turns q ps, (start r).run turns = .finished q ps ↔
        r.definitions.length < turns ∧ q = r ∧ ps = (r.merge r).2) ∧
    (r.definitions.any isExtension → ∀ turns, ∃ w, (start r).run turns = .next w ∧
      w.registry.definitions =
        r.definitions ++ (w.registry.definitions.take turns).filter isExtension) := by
  have hrefused : ¬r.definitions.any isExtension →
      ∀ n ∈ r.definitions, ∃ p, r.add n = .error (.problem p) := fun hr n hn =>
    (h.holds n hn).refused (by simpa using fun hext => hr (List.any_eq_true.2 ⟨n, hn, hext⟩))
  refine ⟨⟨?_, fun hr => ?_⟩, fun hr => ?_, fun hr turns => ?_⟩
  · rintro ⟨turns, q, ps, hend⟩ hr
    obtain ⟨w, hw, -⟩ := exists_run h hr turns
    rw [hend] at hw
    cases hw
  · exact ⟨_, _, _, (run_refused_iff (hrefused hr)).2 ⟨Nat.lt_succ_self _, rfl, rfl⟩⟩
  · obtain ⟨hsame, hlength⟩ := addAll_refused (hrefused hr)
    exact ⟨hsame, hlength, fun turns q ps => run_refused_iff (hrefused hr)⟩
  · obtain ⟨w, hw, hadvanced⟩ := exists_run h hr turns
    exact ⟨w, hw, hadvanced.definitions⟩

/-- An extension of the schema is appended over and over. -/
theorem finished_iff_schemaExtension :
    Reachable { empty with
      schemaExtensions := [.mk .schemaExtension .none []]
      definitions := [.mk .schemaExtension .none []] } ∧
    ¬∃ turns q ps, (start { empty with
      schemaExtensions := [.mk .schemaExtension .none []]
      definitions := [.mk .schemaExtension .none []] }).run turns = .finished q ps := by
  have hadd : empty.add (.mk .schemaExtension .none []) = .ok { empty with
      schemaExtensions := [.mk .schemaExtension .none []]
      definitions := [.mk .schemaExtension .none []] } := rfl
  have hreachable := Reachable.empty.add hadd
  exact ⟨hreachable, fun hend => (finished_iff hreachable).1.1 hend rfl⟩

end Walk

end Registry

end GraphSchema
