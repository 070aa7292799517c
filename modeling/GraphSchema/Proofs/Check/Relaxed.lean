import GraphSchema.Proofs.Check.Match

/-!
# Types with fewer non-null wrappers

A literal that fits a type is compared with the type that is left when some non-null wrappers are
taken off, at any depth. Without its wrapper a list can come to stand directly in another one, and
then the items of the outer list have to be written as lists. This is all that can go wrong.

## Main definitions

* `Node.Relaxes`: a reference to a type with some of its non-null wrappers taken off.
* `Data.NestsIn`: items are written as lists wherever a list stands directly in another one.
* `Check.Carries`: what the success of one check says about another one.

## Main statements

* `Usage.carries_matchesType`, `Usage.matchesType_relaxed`: literals and relaxed types.
-/

namespace GraphSchema

/-- The second reference is the first one with some of its non-null wrappers taken off. -/
inductive Node.Relaxes : (type relaxed : Node) → Prop
  | named {t t' : Node} (ht : t.kind = .namedType) (ht' : t'.kind = .namedType)
      (h : t'.key = t.key) : t.Relaxes t'
  | list {t t' inner inner' : Node} (ht : t.kind = .listType) (ht' : t'.kind = .listType)
      (hinner : t.child? .type = some inner) (hinner' : t'.child? .type = some inner')
      (h : inner.Relaxes inner') : t.Relaxes t'
  | kept {t t' inner inner' : Node} (ht : t.kind = .nonNullType) (ht' : t'.kind = .nonNullType)
      (hinner : t.child? .type = some inner) (hinner' : t'.child? .type = some inner')
      (h : inner.Relaxes inner') : t.Relaxes t'
  | bare {t t' inner : Node} (ht : t.kind = .nonNullType) (hinner : t.child? .type = some inner)
      (h : inner.Relaxes t') : t.Relaxes t'

/-- Wherever the literal is compared with a list that stands directly in another one, it is written
as a list. -/
inductive Data.NestsIn : (value : Data) → (type : Node) → Prop
  | named {value : Data} {t : Node} (ht : t.kind = .namedType) : value.NestsIn t
  | null {value : Data} {t : Node} (hv : value.isOf .nullValue) : value.NestsIn t
  | nonNull {value : Data} {t inner : Node} (ht : t.kind = .nonNullType)
      (hinner : t.child? .type = some inner) (h : value.NestsIn inner) : value.NestsIn t
  | single {value : Data} {t inner : Node} (ht : t.kind = .listType)
      (hinner : t.child? .type = some inner) (hv : ¬value.isOf .listValue)
      (h : value.NestsIn inner) : value.NestsIn t
  | items {v t inner : Node} (ht : t.kind = .listType) (hinner : t.child? .type = some inner)
      (hv : v.kind = .listValue)
      (nested : inner.kind = .listType → ∀ item ∈ (v.content .values).items, item.isOf .listValue)
      (h : ∀ item ∈ (v.content .values).items, item.NestsIn inner) : NestsIn (.node v) t

section Nests

variable {value : Data} {v t inner : Node}

theorem Data.nestsIn_nonNull_iff (ht : t.kind = .nonNullType) (hinner : t.child? .type = some inner)
    (hnull : ¬value.isOf .nullValue) : value.NestsIn t ↔ value.NestsIn inner := by
  constructor
  · intro h
    cases h <;> simp_all
  · exact .nonNull ht hinner

theorem Data.nestsIn_single_iff (ht : t.kind = .listType) (hinner : t.child? .type = some inner)
    (hnull : ¬value.isOf .nullValue) (hlist : ¬value.isOf .listValue) :
    value.NestsIn t ↔ value.NestsIn inner := by
  constructor
  · intro h
    cases h <;> simp_all [isOf, node?]
  · exact .single ht hinner hlist

theorem Data.nestsIn_items_iff (ht : t.kind = .listType) (hinner : t.child? .type = some inner)
    (hv : v.kind = .listValue) :
    NestsIn (.node v) t ↔ ∀ item ∈ (v.content .values).items,
      (inner.kind = .listType → item.isOf .listValue) ∧ item.NestsIn inner := by
  constructor
  · intro h
    cases h with
    | items _ hinner' _ nested h =>
      cases hinner.symm.trans hinner'
      exact fun item hitem => ⟨fun hk => nested hk item hitem, h item hitem⟩
    | _ => simp_all [isOf, node?]
  · intro h
    exact .items ht hinner hv (fun hk item hitem => (h item hitem).1 hk)
      fun item hitem => (h item hitem).2

end Nests

/-! ## What one check says about another -/

namespace Check

variable {α : Type} {a a' b b' c : Check} {P Q : Prop}

/-- If the first check finds nothing then the second one is carried out too, makes the same calls,
and finds nothing if and only if a statement holds. -/
def Carries (a a' : Check) (P : Prop) : Prop :=
  ∀ r, a = .ok r → r.isClean → ∃ r', a' = .ok r' ∧ r'.calls = r.calls ∧ (r'.isClean ↔ P)

theorem Carries.iff (h : a.Carries a' P) (hPQ : P ↔ Q) : a.Carries a' Q := propext hPQ ▸ h

theorem carries_found (p : Problem) : (found p).Carries a' P := by
  rintro r hr hclean
  cases hr
  cases hclean

/-- Both make no calls, and the second one finds nothing just if the statement holds. -/
theorem carries_ite [Decidable P] {p q : Problem} {d : Prop} [Decidable d] :
    (if d then found q else clean).Carries (if P then found p else clean) (¬P) := by
  by_cases hd : d
  · rw [if_pos hd]
    exact carries_found q
  · rw [if_neg hd]
    rintro r hr -
    cases hr
    by_cases hP : P
    · exact ⟨_, if_pos hP, rfl, by simp [hP, Report.isClean, Report.ofProblem]⟩
    · exact ⟨_, if_neg hP, rfl, by simp [hP, Report.isClean, Report.none]⟩

theorem carries_clean (h : P) : a.Carries a P :=
  fun r hr hclean => ⟨r, hr, rfl, by simp [hclean, h]⟩

theorem isClean_append {r q : Report} : (r ++ q).isClean ↔ r.isClean ∧ q.isClean := by
  simp [Report.isClean_iff, Report.problems_append]

theorem Carries.both (ha : a.Carries a' P) (hb : b.Carries b' Q) :
    (both a b).Carries (both a' b') (P ∧ Q) := by
  rintro r h hr
  cases a with
  | error f => cases h
  | ok ra =>
    cases b with
    | error f => cases h
    | ok rb =>
      cases h
      obtain ⟨hra, hrb⟩ := isClean_append.1 hr
      obtain ⟨qa, rfl, hcallsa, hqa⟩ := ha ra rfl hra
      obtain ⟨qb, rfl, hcallsb, hqb⟩ := hb rb rfl hrb
      refine ⟨qa ++ qb, rfl, ?_, isClean_append.trans (and_congr hqa hqb)⟩
      change qa.calls ++ qb.calls = ra.calls ++ rb.calls
      rw [hcallsa, hcallsb]

theorem Carries.each {xs : List α} {f f' : α → Check} {R : α → Prop}
    (h : ∀ x ∈ xs, (f x).Carries (f' x) (R x)) :
    (each xs f).Carries (each xs f') (∀ x ∈ xs, R x) := by
  induction xs with
  | nil => exact carries_clean (by simp)
  | cons x xs ih =>
    rw [each_cons, each_cons]
    have hxs := ih fun y hy => h y (List.mem_cons_of_mem _ hy)
    exact ((h x List.mem_cons_self).both hxs).iff (by simp)

end Check

namespace Usage

open Check (Carries)
open Node (content_eq_of_child?)

variable {u : Usage} {value : Data} {v t t' inner inner' : Node}

/-! ## The forms of types -/

theorem matchesType_nonNull_data (ht : t.kind = .nonNullType)
    (hinner : t.content .type = .node inner) :
    u.matchesType value (.node t) =
      if value.isOf .nullValue then
        u.mismatch .null "Argument value is 'NullValue', expected a non-null value." value
      else u.matchesType value (.node inner) := by
  rw [matchesType]
  simp only [ht, hinner]

/-- A value that is not written as a list stands for a list of one item. -/
theorem matchesType_list_data (ht : t.kind = .listType) (hinner : t.content .type = .node inner)
    (hlist : ¬value.isOf .listValue) :
    u.matchesType value (.node t) =
      if value.isOf .nullValue then Check.clean else u.matchesType value (.node inner) := by
  cases value with
  | node v =>
    rw [Data.isOf_node, decide_eq_true_eq] at hlist
    simp only [matchesType_list ht hinner, if_neg hlist, Data.isOf_node, decide_eq_true_eq]
  | _ =>
    rw [matchesType]
    simp [ht, hinner, Data.isOf, Data.node?]

/-- Of a name of a type only its key counts. -/
theorem matchesType_named_congr (ht : t.kind = .namedType) (ht' : t'.kind = .namedType)
    (h : t'.key = t.key) : u.matchesType value (.node t') = u.matchesType value (.node t) := by
  have hdefinition : u.definition? t' = u.definition? t := by
    simp only [definition?, h]
  rw [matchesType]
  conv_rhs => rw [matchesType]
  simp only [ht, ht', hdefinition]

/-! ## Relaxed types -/

theorem carries_checkItem (item : Data) :
    (u.checkItem item (.node inner)).Carries (u.checkItem item (.node inner'))
      (inner'.kind = .listType → item.isOf .listValue) := by
  refine Check.carries_ite.iff ?_
  simp only [Data.isOf_node, decide_eq_true_eq, not_and, Bool.not_eq_true', Bool.not_eq_false]

/-- A comparison with a type, and one with what is left of it. -/
theorem carries_matchesType (h : t.Relaxes t') (value : Data) :
    (u.matchesType value (.node t)).Carries (u.matchesType value (.node t'))
      (value.NestsIn t') := by
  -- By induction on how wrappers are taken off; the items of a list take the place of the value.
  induction h generalizing value with
  | named ht ht' hkey =>
    rw [matchesType_named_congr ht ht' hkey]
    exact Check.carries_clean (.named ht')
  | list ht ht' hinner hinner' h ih =>
    by_cases hlist : value.isOf .listValue
    · obtain ⟨v, rfl, hv⟩ : ∃ v, value = .node v ∧ v.kind = .listValue := by
        cases value <;> simp_all [Data.isOf, Data.node?]
      have hnull : v.kind ≠ .nullValue := by simp [hv]
      rw [matchesType_list ht (content_eq_of_child? hinner),
        matchesType_list ht' (content_eq_of_child? hinner'), if_neg hnull, if_neg hnull,
        if_pos hv, if_pos hv]
      refine Carries.iff (Carries.each fun item _ => (carries_checkItem item).both (ih item)) ?_
      exact (Data.nestsIn_items_iff ht' hinner' hv).symm
    · rw [matchesType_list_data ht (content_eq_of_child? hinner) hlist,
        matchesType_list_data ht' (content_eq_of_child? hinner') hlist]
      by_cases hnull : value.isOf .nullValue
      · rw [if_pos hnull, if_pos hnull]
        exact Check.carries_clean (.null hnull)
      · rw [if_neg hnull, if_neg hnull]
        exact (ih value).iff (Data.nestsIn_single_iff ht' hinner' hnull hlist).symm
  | kept ht ht' hinner hinner' h ih =>
    rw [matchesType_nonNull_data ht (content_eq_of_child? hinner),
      matchesType_nonNull_data ht' (content_eq_of_child? hinner')]
    by_cases hnull : value.isOf .nullValue
    · rw [if_pos hnull]
      exact Check.carries_found _
    · rw [if_neg hnull, if_neg hnull]
      exact (ih value).iff (Data.nestsIn_nonNull_iff ht' hinner' hnull).symm
  | bare ht hinner h ih =>
    rw [matchesType_nonNull_data ht (content_eq_of_child? hinner)]
    split
    · exact Check.carries_found _
    · exact ih value

/-- If nothing is found when a literal is compared with a type, then the comparison with the type
that has fewer non-null wrappers is carried out too and makes the same calls. It finds nothing if
and only if the literal is written as a list wherever a list stands directly in another one. -/
theorem matchesType_relaxed (u : Usage) (h : t.Relaxes t') (value : Data) {r : Report}
    (hr : u.matchesType value (.node t) = .ok r) (hclean : r.isClean) :
    ∃ r', u.matchesType value (.node t') = .ok r' ∧ r'.calls = r.calls ∧
      (r'.isClean ↔ value.NestsIn t') :=
  carries_matchesType h value r hr hclean

/-- A list of numbers as a value of lists of non-null lists, where the wrapper is taken off: the
comparison without it finds that the number is not written as a list. -/
theorem matchesType_relaxed_nested :
    let u : Usage := ⟨.empty, .empty, .null, default, .null, default⟩
    let value : Data := .node (Grammar.Value.list [.int "1"]).node
    let type := Grammar.TypeReference.list (.list (.named "Length" false) true) false
    let relaxed := Grammar.TypeReference.list (.list (.named "Length" false) false) false
    u.matchesType value (.node type.node) = .ok .none ∧ ¬value.NestsIn relaxed.node ∧
      ∃ r, u.matchesType value (.node relaxed.node) = .ok r ∧ r.calls = [] ∧
        (r.isClean ↔ value.NestsIn relaxed.node) := by
  intro u value type relaxed
  have hunknown : u.registry.extendedType? (.text "Length") = .ok none := by rfl
  have hclean : u.matchesType value (.node type.node) = .ok .none := by
    rw [matchesType_list rfl rfl, if_neg (by decide), if_pos (by decide)]
    change Check.each [Data.node (Grammar.Value.int "1").node] _ = _
    rw [Check.each_cons, matchesType_nonNull rfl rfl, if_neg (by decide),
      matchesType_list rfl rfl, if_neg (by decide), if_neg (by decide),
      matchesType_passed rfl (by decide) rfl hunknown]
    rfl
  refine ⟨hclean, ?_, ?_⟩
  · intro h
    have hnested := (Data.nestsIn_items_iff rfl rfl rfl).1 h _ List.mem_cons_self
    exact absurd (hnested.1 rfl) (by decide)
  · refine matchesType_relaxed u (.list rfl rfl rfl rfl (.bare rfl rfl ?_)) value hclean rfl
    exact .list rfl rfl rfl rfl (.named rfl rfl rfl)

end Usage

end GraphSchema
