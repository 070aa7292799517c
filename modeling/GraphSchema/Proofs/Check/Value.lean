import GraphSchema.Proofs.Check.Names
import GraphSchema.Proofs.Scalar.Rejection

/-!
# Values of scalars, enums and objects

Each of the checks that make up the comparison of a value with a type decides what it should.

## Main statements

* `Usage.decides_checkScalar`, `Usage.decides_checkEnum`: literals that stand for scalars and enums.
* `Usage.decides_checkKeys`: the names of the fields of an object.
* `Usage.decides_checkMissing`, `Usage.decides_checkItem`: missing fields, and items of lists.
-/

namespace GraphSchema

namespace Usage

open Check (Decides)

variable {T : Prop} {u : Usage} {v d : Node}

/-- What does not fit is found. -/
theorem decides_mismatch {kind : Problem.Mismatch} {detail : Text} {value : Data} {P : Prop}
    (h : ¬P) : Decides T (u.mismatch kind detail value) P :=
  Check.decides_found rfl h

/-- A literal that stands for a scalar. -/
theorem decides_checkScalar (hw : T → u.wiring.ScalarsReject) (hv : v.IsLiteral) (hd : d.HasName) :
    Decides T (u.checkScalar (.node v) d)
      (v.kind ∉ Registry.composite ∧ u.wiring.Reads d.nameText v) := by
  unfold checkScalar
  rw [Data.isOneOf_node]
  by_cases hk : v.kind ∈ Registry.composite
  · rw [if_pos (decide_eq_true hk)]
    exact decides_mismatch fun h => h.1 hk
  · rw [if_neg (mt of_decide_eq_true hk), hd.name_eq]
    have hscalar : (Data.text d.nameText).text?.bind u.wiring.scalar? =
        u.wiring.scalar? d.nameText := rfl
    rw [hscalar]
    cases hs : u.wiring.scalar? d.nameText with
    | none =>
      refine Check.decides_clean ⟨hk, ?_⟩
      intro s hs'
      rw [hs] at hs'
      cases hs'
    | some s =>
      have hreads : u.wiring.Reads d.nameText v ↔ ∃ x, s.parseLiteral (.node v) = .ok x := by
        simp [Wiring.Reads, hs]
      cases hp : s.parseLiteral (.node v) with
      | ok x =>
        simp only [hp]
        exact Check.finds_ok ⟨by simp [hk, hreads, hp], by simp⟩
      | error f =>
        simp only [hp]
        split
        · exact (decides_mismatch (by simp [hreads, hp])).after rfl
        · rename_i hf
          exact Check.finds_error fun hT => hf (((hw hT).scalar? hs).parseLiteral hv hp)

/-- A literal that stands for a value of an enum. -/
theorem decides_checkEnum {ns : List Node} (hv : v.IsLiteral)
    (hvalues : (d.content .values).items = ns.map Data.node) (hns : ∀ n ∈ ns, n.HasName) :
    Decides T (u.checkEnum (.node v) d)
      (v.kind = .enumValue ∧ ∃ e ∈ ns, v.content .value = .text e.nameText) := by
  unfold checkEnum
  by_cases hk : v.kind = .enumValue
  · have hfilter : (Data.node v).node?.filter (fun n => n.kind = .enumValue) = some v := by
      simp [Data.node?, Option.filter, hk]
    obtain ⟨t, ht⟩ := Scalar.exists_text_of_kind hv.wellTyped (by simp [hk])
    rw [hfilter]
    simp only [hvalues, names_eq hns, ht]
    have hany : ((ns.map Node.nameText).map Data.text).any (Data.text t).same = true ↔
        ∃ e ∈ ns, Data.text t = .text e.nameText := by
      simp [Data.same_text]
    change Decides T (if _ then Check.clean else _) _
    by_cases hmem : ∃ e ∈ ns, Data.text t = .text e.nameText
    · rw [if_pos (hany.2 hmem)]
      exact Check.decides_clean ⟨hk, hmem⟩
    · rw [if_neg (mt hany.1 hmem), bracketed_texts]
      exact decides_mismatch fun h => hmem h.2
  · have hfilter : (Data.node v).node?.filter (fun n => n.kind = .enumValue) = none := by
      simp [Data.node?, Option.filter, hk]
    rw [hfilter]
    exact decides_mismatch fun h => hk h.1

/-- The fields of an object by their names. -/
theorem decides_checkKeys {fs is : List Node} (hfs : ∀ f ∈ fs, f.HasName)
    (his : ∀ i ∈ is, i.HasName) (hfields : (d.content .fields).items = is.map Data.node) :
    Decides T (u.checkKeys v d (fs.map fun f => (.text f.nameText, .node f)))
      ((fs.map Node.nameText).Nodup ∧ ∀ f ∈ fs, ∃ i ∈ is, i.nameText = f.nameText) := by
  have hnodup : repeatedNames ((fs.map fun f => (Atom.text f.nameText, Data.node f)).map Prod.fst) =
      [] ↔ (fs.map Node.nameText).Nodup := by
    have hinj : Function.Injective Atom.text := fun _ _ => Atom.text.inj
    rw [repeatedNames_eq_nil_iff, ← List.nodup_map_iff hinj]
    simp [Function.comp_def]
  unfold checkKeys
  by_cases htwice : (fs.map Node.nameText).Nodup
  · have hunknown : ∀ q : Atom → Bool, names (((fs.map fun f =>
        (Atom.text f.nameText, Data.node f)).filter fun entry => q entry.1).map Prod.snd) =
        .ok (((fs.filter fun f => q (.text f.nameText)).map Node.nameText).map Data.text) := by
      intro q
      rw [List.filter_map, List.map_map]
      exact names_eq fun f hf => hfs f (List.mem_filter.1 hf).1
    simp only [hnodup.2 htwice, ne_eq, not_true_eq_false, if_false, hfields, keyed_eq his, ok_bind,
      hunknown fun a => !(is.map fun i => (Atom.text i.nameText, Data.node i)).any fun e => e.1 = a]
    generalize hus : fs.filter _ = us
    have hknown : us = [] ↔ ∀ f ∈ fs, ∃ i ∈ is, i.nameText = f.nameText := by
      rw [← hus, List.filter_eq_nil_iff]
      simp
    by_cases hempty : us = []
    · rw [if_pos (by simp [hempty])]
      exact Check.decides_clean ⟨htwice, hknown.1 hempty⟩
    · rw [if_neg (by simp [hempty]), bracketed_texts]
      exact decides_mismatch fun h => hempty (hknown.2 h.2)
  · have hshown : ∀ d ∈ (repeatedNames ((fs.map fun f =>
        (Atom.text f.nameText, Data.node f)).map Prod.fst)).filterMap (Table.get? (fs.map fun f =>
          (Atom.text f.nameText, Data.node f))), ∃ n, d = .node n ∧ n.HasName := by
      intro d hd
      obtain ⟨a, -, ha⟩ := List.mem_filterMap.1 hd
      obtain ⟨f, hf, hfa⟩ := List.mem_map.1 (Table.mem_of_get? ha)
      cases hfa
      exact ⟨f, rfl, hfs f hf⟩
    obtain ⟨ts, hts⟩ := names_texts hshown
    simp only [mt hnodup.1 htwice, ne_eq, not_false_eq_true, if_true, hts, ok_bind, joined_texts]
    exact decides_mismatch fun h => htwice h.1

/-- A declared field that was not given. -/
theorem decides_checkMissing {i : Node} (hi : i.WellTyped) (hk : i.kind = .inputValueDefinition) :
    Decides T (u.checkMissing v (.node i)) ¬i.IsRequired := by
  obtain ⟨b, hb, hiff⟩ := isRequired_eq hi hk
  have hname : i.HasName := (hi.inputValue hk).1
  rw [checkMissing, hb, ok_bind, ← hiff]
  cases b with
  | true =>
    change Decides T (do
      let name ← i.get .name
      u.mismatch .missingField ("Missing required field '" ++ name.display ++ "'.") (.node v)) _
    rw [hname, ok_bind]
    exact decides_mismatch (by simp)
  | false => exact Check.decides_clean (by simp)

/-- An item of a list of lists. -/
theorem decides_checkItem {t : Node} :
    Decides T (u.checkItem (.node v) (.node t)) (t.kind = .listType → v.kind = .listValue) := by
  rw [checkItem, Data.isOf_node, Data.isOf_node]
  split
  · exact decides_mismatch (by grind)
  · exact Check.decides_clean (by grind)

end Usage

end GraphSchema
