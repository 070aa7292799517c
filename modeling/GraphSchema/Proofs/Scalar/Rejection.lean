import GraphSchema.Proofs.Node.WellTyped
import GraphSchema.Proofs.Table
import GraphSchema.Wiring

/-!
# Literals that are turned down

The scalars that are always there turn down the literals that they do not take, and fail in no other
way.

## Main definitions

* `Scalar.OnlyRejects`, `Callback.OnlyRejects`: what is not taken is turned down.
* `Wiring.ScalarsReject`, `Wiring.CoercersReject`: so it is with all that is registered.

## Main statements

* `Scalar.onlyRejects_of_mem_builtins`: so it is with the scalars that are always there.
-/

namespace GraphSchema

/-- A function of literals turns down those that it does not take, and fails in no other way. -/
def OnlyRejects (read : Data → Except Failure Data) : Prop :=
  ∀ v : Node, v.IsLiteral → ∀ f, read (.node v) = .error f → f.isRejection

namespace Scalar

/-- The scalar turns down the literals that it does not read. -/
def OnlyRejects (s : Scalar) : Prop := GraphSchema.OnlyRejects s.read

theorem isRejection_of_readInt {t : Text} {f : Failure} (h : readInt (.text t) = .error f) :
    f.isRejection := by
  cases t with
  | nil => cases h; rfl
  | cons c t =>
    simp only [readInt] at h
    split at h
    · cases h
    · cases h; rfl

theorem isRejection_of_coerceInt {t : Text} {f : Failure} (h : coerceInt (.text t) = .error f) :
    f.isRejection := by
  cases hn : readInt (.text t) with
  | error g =>
    rw [coerceInt, hn] at h
    cases h
    exact isRejection_of_readInt hn
  | ok n =>
    rw [coerceInt, hn] at h
    change (if minInt ≤ n ∧ n ≤ maxInt then Except.ok n
      else Except.error (Failure.badValue _)) = _ at h
    split at h
    · cases h
    · cases h; rfl

theorem isRejection_of_coerceFloat {t : Text} {f : Failure}
    (h : coerceFloat (.text t) = .error f) : f.isRejection := by
  cases t with
  | nil => cases h; rfl
  | cons c t =>
    simp only [coerceFloat] at h
    split at h
    · cases h
    · cases h; rfl

theorem ofKinds_node (kinds : List Kind) (read : Data → Except Failure Data) (v : Node) :
    ofKinds kinds read (.node v) =
      if v.kind ∈ kinds then read (v.content .value)
      else .error (.badType ("Invalid literal " ++ v.kind.label)) := by
  by_cases h : v.kind ∈ kinds <;> simp [ofKinds, Data.node?, Option.filter, Data.typeName, h]

/-- Literals of other kinds are turned down, so only what is held by those of the right kinds
counts. -/
theorem onlyRejects_native {name description : Text} {kinds : List Kind}
    {read : Data → Except Failure Data}
    (h : ∀ v : Node, v.WellTyped → v.kind ∈ kinds → ∀ f, read (v.content .value) = .error f →
      f.isRejection) : (native name description kinds read).OnlyRejects := by
  intro v hv f hf
  change ofKinds kinds read (.node v) = _ at hf
  rw [ofKinds_node] at hf
  split at hf
  · exact h v hv.wellTyped ‹_› f hf
  · cases hf; rfl

theorem isRejection_of_map {α : Type} {x : Except Failure α} {g : α → Data} {f : Failure}
    (h : x.map g = .error f) (hx : x = .error f → f.isRejection) : f.isRejection := by
  cases x with
  | ok a => cases h
  | error e => cases h; exact hx rfl

/-- The literals of numbers hold texts. -/
theorem exists_text_of_kind {v : Node} (hv : v.WellTyped)
    (hk : v.kind ∈ [Kind.intValue, .floatValue, .enumValue, .stringValue]) :
    ∃ t, v.content .value = .text t := by
  refine hv.text (b := none) ?_ ?_
  · rcases v with ⟨k, i, slots⟩
    cases k <;> simp_all [Node.kind, Kind.layout]
  · rcases v with ⟨k, i, slots⟩
    cases k <;> simp_all [Node.kind, Kind.holdsTruth]

/-- The scalars that are always there turn down the literals that they do not read. -/
theorem onlyRejects_of_mem_builtins {s : Scalar} (h : s ∈ builtins) : s.OnlyRejects := by
  have hnumber : ∀ (v : Node) (f : Failure), v.WellTyped → v.kind ∈ [Kind.floatValue, .intValue] →
      ∃ t, v.content .value = .text t := by
    intro v f hv hk
    refine exists_text_of_kind hv ?_
    simp only [List.mem_cons] at hk ⊢
    grind
  simp only [builtins, List.mem_cons, List.not_mem_nil, or_false] at h
  rcases h with rfl | rfl | rfl | rfl | rfl
  · refine onlyRejects_native fun v hv hk f hf => isRejection_of_map hf fun hx => ?_
    obtain ⟨t, ht⟩ := hnumber v f hv (List.mem_cons_of_mem _ hk)
    rw [ht] at hx
    exact isRejection_of_coerceInt hx
  · refine onlyRejects_native fun v hv hk f hf => isRejection_of_map hf fun hx => ?_
    obtain ⟨t, ht⟩ := hnumber v f hv hk
    rw [ht] at hx
    exact isRejection_of_coerceFloat hx
  · exact onlyRejects_native fun _ _ _ _ hf => by cases hf
  · exact onlyRejects_native fun _ _ _ _ hf => by cases hf
  · exact onlyRejects_native fun _ _ _ _ hf => by cases hf

/-- What the scalar turns down does not get through the reading of literals as anything else. -/
theorem OnlyRejects.parseLiteral {s : Scalar} (h : s.OnlyRejects) {v : Node} (hv : v.IsLiteral)
    {f : Failure} (hf : s.parseLiteral (.node v) = .error f) : f.category = .scalarParsing := by
  unfold Scalar.parseLiteral at hf
  split at hf
  · cases hf
  · rename_i g hg
    rw [if_pos (h v hv g hg)] at hf
    cases hf
    rfl

end Scalar

/-- The callback turns down the literals that it does not take. -/
def Callback.OnlyRejects (c : Callback) : Prop := GraphSchema.OnlyRejects c.run

namespace Wiring

/-- All scalars turn down the literals that they do not read. -/
def ScalarsReject (w : Wiring) : Prop := ∀ s ∈ w.scalars.values, s.OnlyRejects

/-- All coercers turn down the literals that they do not take. -/
def CoercersReject (w : Wiring) : Prop :=
  ∀ entry ∈ w.coercers, ∀ c ∈ entry.2.values, c.OnlyRejects

variable {w : Wiring}

/-- A scalar that is found is one of the wiring or one that is always there. -/
theorem mem_of_scalar? {name : Text} {s : Scalar} (hs : w.scalar? name = some s) :
    s ∈ w.scalars.values ∨ s ∈ Scalar.builtins := by
  unfold Wiring.scalar? at hs
  split at hs
  · rename_i q hq
    cases hs
    exact .inl (List.mem_map.2 ⟨_, Table.mem_of_get? hq, rfl⟩)
  · exact .inr (List.mem_of_find?_eq_some hs)

/-- A coercer that is found is one of those of its directive. -/
theorem mem_of_coercer? {directive argument : Text} {c : Callback}
    (hc : w.coercer? directive argument = some c) : ∃ e ∈ w.coercers, c ∈ e.2.values := by
  unfold Wiring.coercer? coercersOf at hc
  cases ht : w.coercers.get? directive with
  | none => rw [ht] at hc; cases hc
  | some t =>
    rw [ht] at hc
    exact ⟨_, Table.mem_of_get? ht, List.mem_map.2 ⟨_, Table.mem_of_get? hc, rfl⟩⟩

theorem ScalarsReject.scalar? (h : w.ScalarsReject) {name : Text} {s : Scalar}
    (hs : w.scalar? name = some s) : s.OnlyRejects :=
  (mem_of_scalar? hs).elim (h s) Scalar.onlyRejects_of_mem_builtins

theorem CoercersReject.coercer? (h : w.CoercersReject) {directive argument : Text} {c : Callback}
    (hc : w.coercer? directive argument = some c) : c.OnlyRejects := by
  obtain ⟨e, he, hmem⟩ := mem_of_coercer? hc
  exact h e he c hmem

end Wiring

end GraphSchema
