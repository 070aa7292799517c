import GraphSchema.Proofs.Check.Value

/-!
# Comparing values with types

The comparison of a literal with a reference to a type is carried out for all well-typed registries,
types that refer to themselves included, and finds nothing if and only if the literal is a value of
the type.

## Main statements

* `Usage.decides_matchesType`: the comparison decides which literals are values of which types.
-/

namespace GraphSchema

namespace Usage

open Check (Decides)

variable {T : Prop} {u : Usage} {v t inner : Node}

/-! ## The forms of types -/

theorem matchesType_nonNull (ht : t.kind = .nonNullType) (hinner : t.content .type = .node inner) :
    u.matchesType (.node v) (.node t) =
      if v.kind = .nullValue then
        u.mismatch .null "Argument value is 'NullValue', expected a non-null value." (.node v)
      else u.matchesType (.node v) (.node inner) := by
  rw [matchesType]
  simp only [ht, hinner, Data.isOf_node, decide_eq_true_eq]

theorem matchesType_list (ht : t.kind = .listType) (hinner : t.content .type = .node inner) :
    u.matchesType (.node v) (.node t) =
      if v.kind = .nullValue then Check.clean
      else if v.kind = .listValue then
        Check.each (v.content .values).items fun item =>
          Check.both (u.checkItem item (.node inner)) (u.matchesType item (.node inner))
      else u.matchesType (.node v) (.node inner) := by
  rw [matchesType]
  simp only [ht, hinner]
  rw [← Check.each_attach _ fun item =>
    Check.both (u.checkItem item (.node inner)) (u.matchesType item (.node inner))]

/-- What is found of a declared field of an object. -/
def checkDeclared (u : Usage) (v : Node) (declared : Data) : Check := do
  match field? v (← (← declared.get .name).key) with
  | none => u.checkMissing v declared
  | some f => u.matchesType (← f.1.get .value) (← declared.get .type)

section Named

variable {n : Node} {name : Atom} (ht : t.kind = .namedType) (hv : v.kind ≠ .nullValue)
  (hname : t.key = .ok name) (hn : u.registry.extendedType? name = .ok (some n))

include ht hv hname hn

theorem matchesType_scalar (hk : n.kind = .typeDefinition .scalar) :
    u.matchesType (.node v) (.node t) = u.checkScalar (.node v) n := by
  rw [matchesType]
  simp only [ht, Data.isOf_node, decide_eq_true_eq, if_neg hv, definition?, hname, ok_bind, hn, hk]

theorem matchesType_enum (hk : n.kind = .typeDefinition .enum) :
    u.matchesType (.node v) (.node t) = u.checkEnum (.node v) n := by
  rw [matchesType]
  simp only [ht, Data.isOf_node, decide_eq_true_eq, if_neg hv, definition?, hname, ok_bind, hn, hk]

theorem matchesType_object (hk : n.kind = .typeDefinition .inputObject) :
    u.matchesType (.node v) (.node t) =
      if v.kind = .objectValue then do
        let report ← u.checkKeys v n (← keyed (v.content .fields).items)
        if report.isClean then Check.each (n.content .fields).items (u.checkDeclared v)
        else return report
      else u.notObject (.node v) := by
  rw [matchesType]
  simp only [ht, Data.isOf_node, decide_eq_true_eq, if_neg hv, definition?, hname, ok_bind, hn, hk]
  split
  · refine bind_congr fun given => bind_congr fun report => ?_
    refine ite_congr rfl (fun _ => ?_) fun _ => rfl
    refine congrArg _ (funext fun declared => ?_)
    refine bind_congr fun name => bind_congr fun key => ?_
    cases field? v key with
    | none => rfl
    | some f =>
      obtain ⟨f, hf⟩ := f
      simp only
      split
      · rename_i given hgiven
        rw [hgiven]
        rfl
      · rename_i e he
        rw [he]
        rfl
  · rfl

theorem matchesType_output {k : TypeKind} (hk : n.kind = .typeDefinition k)
    (hinput : k.isInput = false) : u.matchesType (.node v) (.node t) = Check.clean := by
  rw [matchesType]
  cases k with
  | scalar => cases hinput
  | enum => cases hinput
  | inputObject => cases hinput
  | _ =>
    simp only [ht, Data.isOf_node, decide_eq_true_eq, if_neg hv, definition?, hname, ok_bind, hn,
      hk]

end Named

theorem matchesType_null (ht : t.kind = .namedType) (hv : v.kind = .nullValue) :
    u.matchesType (.node v) (.node t) = Check.clean := by
  rw [matchesType]
  simp only [ht, Data.isOf_node, decide_eq_true_eq, if_pos hv]

theorem matchesType_passed {name : Atom} (ht : t.kind = .namedType) (hv : v.kind ≠ .nullValue)
    (hname : t.key = .ok name) (hn : u.registry.extendedType? name = .ok none) :
    u.matchesType (.node v) (.node t) = Check.clean := by
  rw [matchesType]
  simp only [ht, Data.isOf_node, decide_eq_true_eq, if_neg hv, definition?, hname, ok_bind, hn]

/-! ## Objects -/

/-- Comparisons of literals that are smaller than a bound decide what they should. -/
def Settles (T : Prop) (u : Usage) (bound : Nat) : Prop :=
  ∀ x s : Node, x.size < bound → x.IsLiteral → s.IsReference →
    Decides T (u.matchesType (.node x) (.node s)) (u.registry.Conforms u.wiring s x)

/-- What is asked of a declared field of an object: it is there if it must be, and its value is a
value of its type. -/
def FieldFits (u : Usage) (v i : Node) : Prop :=
  (i.IsRequired → ∃ f ∈ v.childrenAt .fields, f.nameText = i.nameText) ∧
    ∀ f ∈ v.childrenAt .fields, i.nameText = f.nameText → ∀ s x, i.child? .type = some s →
      f.child? .value = some x → u.registry.Conforms u.wiring s x

theorem checkDeclared_eq {i : Node} (h : i.HasName) :
    u.checkDeclared v (.node i) =
      match field? v (.text i.nameText) with
      | none => u.checkMissing v (.node i)
      | some f => f.1.get .value >>= fun x => i.get .type >>= fun s => u.matchesType x s := by
  have hname : (Data.node i).get .name = .ok (.text i.nameText) := h
  rw [checkDeclared, hname]
  rfl

section Declared

variable {i f s x : Node} (hv : v.IsLiteral) (hvk : v.kind = .objectValue) (hi : i.WellTyped)
  (hik : i.kind = .inputValueDefinition)

include hv hvk hi hik

theorem checkDeclared_missing (hno : ∀ f ∈ v.childrenAt .fields, f.nameText ≠ i.nameText) :
    u.checkDeclared v (.node i) = u.checkMissing v (.node i) := by
  obtain ⟨hitems, hfields⟩ := hv.fields hvk
  have hspec := field?_spec hitems (fun f hf => ((hfields f hf).1.entry (.inl (hfields f hf).2)).1)
    i.nameText
  rw [checkDeclared_eq (hi.inputValue hik).1]
  cases hfound : field? v (.text i.nameText) with
  | none => rfl
  | some d =>
    rw [hfound] at hspec
    obtain ⟨f, hf, -, heq⟩ := hspec
    exact absurd heq (hno f hf)

theorem checkDeclared_given (hnodup : ((v.childrenAt .fields).map Node.nameText).Nodup)
    (hf : f ∈ v.childrenAt .fields) (hfname : f.nameText = i.nameText)
    (hs : i.child? .type = some s) (hx : f.child? .value = some x) :
    u.checkDeclared v (.node i) = u.matchesType (.node x) (.node s) := by
  obtain ⟨hitems, hfields⟩ := hv.fields hvk
  obtain ⟨hname, t, ht, htget, -⟩ := hi.inputValue hik
  obtain ⟨-, y, hy, hyget, -⟩ := (hfields f hf).1.entry (.inl (hfields f hf).2)
  rw [Node.child?_eq ht] at hs
  rw [Node.child?_eq hy] at hx
  cases hs
  cases hx
  have hspec := field?_spec hitems (fun f hf => ((hfields f hf).1.entry (.inl (hfields f hf).2)).1)
    i.nameText
  rw [checkDeclared_eq hname]
  cases hfound : field? v (.text i.nameText) with
  | none =>
    rw [hfound] at hspec
    exact absurd hfname (hspec f hf)
  | some d =>
    rw [hfound] at hspec
    obtain ⟨g, hg, hd, hgname⟩ := hspec
    have hgf : g = f := List.inj_on_of_nodup_map hnodup hg hf (by rw [hgname, hfname])
    simp only [hd, hgf, Data.get, hyget, htget, ok_bind]

/-- A declared field of an object. -/
theorem decides_checkDeclared (hu : u.Settles T v.size)
    (hnodup : ((v.childrenAt .fields).map Node.nameText).Nodup) :
    Decides T (u.checkDeclared v (.node i)) (u.FieldFits v i) := by
  by_cases hgiven : ∃ f ∈ v.childrenAt .fields, f.nameText = i.nameText
  · obtain ⟨f, hf, hfname⟩ := hgiven
    obtain ⟨-, hfields⟩ := hv.fields hvk
    obtain ⟨-, s, hs, -, href⟩ := hi.inputValue hik
    obtain ⟨-, x, hx, -, hlit⟩ := (hfields f hf).1.entry (.inl (hfields f hf).2)
    have hsize : x.size < v.size := Nat.lt_trans (Node.size_lt_of_child? (Node.child?_eq hx))
      (Node.size_lt_of_mem_childrenAt hf)
    rw [checkDeclared_given hv hvk hi hik hnodup hf hfname (Node.child?_eq hs) (Node.child?_eq hx)]
    refine (hu x s hsize hlit href).iff ⟨fun h => ⟨fun _ => ⟨f, hf, hfname⟩, ?_⟩, ?_⟩
    · intro g hg heq s' x' hs' hx'
      have hgf : g = f := List.inj_on_of_nodup_map hnodup hg hf (by rw [hfname, heq])
      rw [hgf, Node.child?_eq hx] at hx'
      rw [Node.child?_eq hs] at hs'
      cases hx'
      cases hs'
      exact h
    · intro h
      exact h.2 f hf hfname.symm s x (Node.child?_eq hs) (Node.child?_eq hx)
  · have hno : ∀ f ∈ v.childrenAt .fields, f.nameText ≠ i.nameText :=
      fun f hf heq => hgiven ⟨f, hf, heq⟩
    rw [checkDeclared_missing hv hvk hi hik hno]
    refine (decides_checkMissing hi hik).iff ⟨fun hopt => ⟨fun h => absurd h hopt, ?_⟩, ?_⟩
    · intro f hf heq
      exact absurd heq.symm (hno f hf)
    · intro h hreq
      exact hgiven (h.1 hreq)

end Declared

/-- A type of objects whose definition, with its extensions, is given. -/
theorem decides_matchesType_object {n : Node} {name : Atom} (hu : u.Settles T v.size)
    (ht : t.kind = .namedType) (hv : v.IsLiteral) (hnull : v.kind ≠ .nullValue)
    (hname : t.key = .ok name) (hn : u.registry.extendedType? name = .ok (some n))
    (hwell : n.WellTyped) (hk : n.kind = .typeDefinition .inputObject) :
    Decides T (u.matchesType (.node v) (.node t))
      (v.kind = .objectValue ∧ Registry.FitsFields (n.childrenAt .fields) v ∧
        ∀ i ∈ n.childrenAt .fields, ∀ f ∈ v.childrenAt .fields, i.nameText = f.nameText →
          ∀ s x, i.child? .type = some s → f.child? .value = some x →
            u.registry.Conforms u.wiring s x) := by
  obtain ⟨hdefined, hdeclared⟩ := hwell.typeMembers (r := .fields) (m := .inputValueDefinition)
    (.inl hk) (by simp [Kind.members]) (by simp [Kind.admits])
  have hnames : ∀ i ∈ n.childrenAt .fields, i.HasName :=
    fun i hi => ((hdeclared i hi).1.inputValue (hdeclared i hi).2).1
  rw [matchesType_object ht hnull hname hn hk]
  by_cases hvk : v.kind = .objectValue
  · obtain ⟨hitems, hfields⟩ := hv.fields hvk
    have hgiven : ∀ f ∈ v.childrenAt .fields, f.HasName :=
      fun f hf => ((hfields f hf).1.entry (.inl (hfields f hf).2)).1
    have hkeys := decides_checkKeys (T := True) (u := u) (v := v) hgiven hnames hdefined
    obtain ⟨report, hreport⟩ := hkeys.total trivial
    obtain ⟨hclean, hall⟩ := hkeys.sound report hreport
    rw [if_pos hvk, hitems, keyed_eq hgiven, ok_bind, hreport, ok_bind, hdefined]
    split
    · have hkeys := hclean.1 (Report.isClean_iff.1 ‹_›)
      rw [Check.each_map]
      have heach := Decides.each fun i hi =>
        decides_checkDeclared hv hvk (hdeclared i hi).1 (hdeclared i hi).2 hu hkeys.1
      refine heach.iff ⟨fun h => ⟨hvk, ⟨hkeys.1, hkeys.2, fun i hi => (h i hi).1⟩, ?_⟩, ?_⟩
      · exact fun i hi => (h i hi).2
      · exact fun h i hi => ⟨h.2.1.given i hi, h.2.2 i hi⟩
    · have hkeys := mt (fun h => Report.isClean_iff.2 (hclean.2 h)) ‹_›
      refine Check.finds_ok ⟨?_, hall⟩
      exact hclean.trans (iff_of_false hkeys fun h => hkeys ⟨h.2.1.nodup, h.2.1.known⟩)
  · rw [if_neg hvk]
    exact decides_mismatch fun h => hvk h.1

/-! ## All types -/

/-- A name of a type, if comparisons of smaller literals decide what they should. -/
theorem decides_matchesType_named (hr : u.registry.WellTyped) (hw : T → u.wiring.ScalarsReject)
    (hu : u.Settles T v.size) (hv : v.IsLiteral) (ht : t.IsReference) (hk : t.kind = .namedType) :
    Decides T (u.matchesType (.node v) (.node t)) (u.registry.Conforms u.wiring t v) := by
  have hname := (ht.hasName hk).key_eq
  by_cases hnull : v.kind = .nullValue
  · rw [matchesType_null hk hnull]
    exact Check.decides_clean (.null (by simp [hk]) hnull)
  cases hbase : u.registry.type? (.text t.nameText) with
  | none =>
    rw [matchesType_passed hk hnull hname (Registry.extendedType?_of_none hbase)]
    exact Check.decides_clean (.passed hk hname (by simp [Registry.isInputType, hbase]))
  | some base =>
    obtain ⟨k, hentry⟩ := hr.type? hbase
    obtain ⟨n, hn, hkind, hinfo, hwell, hmembers, hothers⟩ := hr.extendedType?_eq hbase hentry.kind
    have hnamed : Kind.named ∈ base.kind.layout := by
      rw [hentry.kind]
      simp [Kind.layout]
    have hkn : n.kind = .typeDefinition k := hkind.trans hentry.kind
    cases k with
    | scalar =>
      have hnamed' : Kind.named ∈ n.kind.layout := hkind ▸ hnamed
      have hsame : n.nameText = base.nameText := hwell.nameText_eq hentry.wellTyped hnamed' hnamed
        (hothers .name (by simp [Kind.members]))
      rw [matchesType_scalar hk hnull hname hn hkn]
      refine (decides_checkScalar hw hv (hwell.hasName hnamed')).iff ?_
      rw [hsame]
      exact (Registry.conforms_scalar_iff hk hname hnull hbase hentry.kind).symm
    | enum =>
      obtain ⟨hdefined, hnames⟩ := hwell.enumValues hkn
      rw [matchesType_enum hk hnull hname hn hkn]
      refine (decides_checkEnum hv hdefined hnames).iff ?_
      rw [hmembers .values (by simp [Kind.members])]
      exact (Registry.conforms_enum_iff hk hname hnull hbase hentry.kind).symm
    | inputObject =>
      refine (decides_matchesType_object hu hk hv hnull hname hn hwell hkn).iff ?_
      rw [hmembers .fields (by simp [Kind.members])]
      exact (Registry.conforms_object_iff hk hname hnull hbase hentry.kind).symm
    | _ =>
      rw [matchesType_output hk hnull hname hn hkn rfl]
      exact Check.decides_clean (.passed hk hname (Registry.isInputType_of_kind hbase hentry.kind))

/-- The comparison decides which literals are values of which types. A value that stands for a list
of one item stays as it is while the type gets smaller; otherwise the value gets smaller, and the
type may be any. -/
theorem decides_matchesType {v t : Node} (hr : u.registry.WellTyped)
    (hw : T → u.wiring.ScalarsReject) (hv : v.IsLiteral) (ht : t.IsReference) :
    Decides T (u.matchesType (.node v) (.node t)) (u.registry.Conforms u.wiring t v) := by
  have hu : u.Settles T v.size := fun x s hx hlit href => decides_matchesType hr hw hlit href
  rcases ht.kind_cases with hk | hk | hk
  · obtain ⟨inner, hinner, href⟩ := ht.inner (.inl hk)
    have hsize := Node.size_lt_of_child? (Node.child?_eq hinner)
    rw [matchesType_nonNull hk hinner]
    refine Decides.iff ?_ (Registry.conforms_nonNull_iff hk (Node.child?_eq hinner)).symm
    by_cases hnull : v.kind = .nullValue
    · rw [if_pos hnull]
      exact decides_mismatch fun h => h.1 hnull
    · rw [if_neg hnull]
      exact (decides_matchesType hr hw hv href).iff ⟨fun h => ⟨hnull, h⟩, fun h => h.2⟩
  · obtain ⟨inner, hinner, href⟩ := ht.inner (.inr hk)
    have hsize := Node.size_lt_of_child? (Node.child?_eq hinner)
    rw [matchesType_list hk hinner]
    by_cases hnull : v.kind = .nullValue
    · rw [if_pos hnull]
      exact Check.decides_clean (.null (by simp [hk]) hnull)
    · rw [if_neg hnull]
      refine Decides.iff ?_ (Registry.conforms_list_iff hk (Node.child?_eq hinner) hnull).symm
      by_cases hlist : v.kind = .listValue
      · obtain ⟨hitems, hlit⟩ := hv.items hlist
        rw [if_pos hlist, if_pos hlist, hitems, Check.each_map]
        refine Decides.each fun item hitem => decides_checkItem.both (hu item inner ?_ ?_ href)
        · exact Node.size_lt_of_mem_childrenAt hitem
        · exact hlit item hitem
      · rw [if_neg hlist, if_neg hlist]
        exact decides_matchesType hr hw hv href
  · exact decides_matchesType_named hr hw hu hv ht hk
termination_by (v.size, t.size)

/-- The comparison of a literal with a reference to a type ends with a report, which says nothing
but that values do not fit, and says nothing at all if and only if the literal is a value of the
type. -/
theorem matchesType_clean_iff (u : Usage) (hr : u.registry.WellTyped) (hw : u.wiring.ScalarsReject)
    {v t : Node} (hv : v.IsLiteral) (ht : t.IsReference) :
    ∃ report, u.matchesType (.node v) (.node t) = .ok report ∧
      (report.isClean ↔ u.registry.Conforms u.wiring t v) ∧
      ∀ p ∈ report.problems, p.isMismatch := by
  have h := decides_matchesType hr (fun _ : True => hw) hv ht
  obtain ⟨report, hreport⟩ := h.total trivial
  obtain ⟨hiff, hall⟩ := h.sound report hreport
  exact ⟨report, hreport, Report.isClean_iff.trans hiff, hall⟩

/-- A type of objects with a field of the type itself. -/
def selfReferring : Grammar.Definition :=
  .type none "Tree" [] (.inputObject [⟨none, "below", .named "Tree" false, none, []⟩])

/-- An object of that type in another one, where the type is referred to as non-null. -/
theorem matchesType_clean_iff_selfReferring :
    ∃ report, matchesType
        ⟨(Registry.empty.addAll [selfReferring.node]).1, .empty, .null, default, .null, default⟩
        (.node (Grammar.Value.object [("below", .object [("below", .null)])]).node)
        (.node (Grammar.TypeReference.named "Tree" true).node) = .ok report ∧
      (report.isClean ↔ (Registry.empty.addAll [selfReferring.node]).1.Conforms .empty
        (Grammar.TypeReference.named "Tree" true).node
        (Grammar.Value.object [("below", .object [("below", .null)])]).node) ∧
      ∀ p ∈ report.problems, p.isMismatch := by
  refine matchesType_clean_iff
    ⟨(Registry.empty.addAll [selfReferring.node]).1, .empty, .null, default, .null, default⟩ ?_ ?_
    (Grammar.Value.isLiteral_node _) (Grammar.TypeReference.isReference_node _)
  · refine Registry.wellTyped_empty.addAll fun n hn => ?_
    rw [List.mem_singleton.1 hn]
    exact ⟨selfReferring.wellTyped_node, selfReferring.isDeclaration_kind⟩
  · intro s hs
    cases hs

end Usage

end GraphSchema
