import GraphSchema.Proofs.Check.Match
import GraphSchema.Proofs.Check.Mirror
import GraphSchema.Proofs.Registry.Relabel
import GraphSchema.Proofs.Scalar.Blind

/-!
# Values of nodes with other metadata

A literal is compared with a type in a registry as the literal with other metadata is compared with
the type in the registry with other metadata, if scalars are blind to the change.

## Main definitions

* `Usage.relabel`: an argument of a directive on an element, with other metadata.
* `Usage.IsWorded`: the directive, the element and the argument have texts for names.

## Main statements

* `Usage.mirrors_matchesType`: comparing literals with types.
* `Usage.mirrors_checkArgument`: values of arguments.
-/

namespace GraphSchema

open Check (Mirrors)
open Node

variable {f : Metadata → Metadata}

namespace Usage

/-- The argument, the element and the registry with other metadata. -/
def relabel (f : Metadata → Metadata) (u : Usage) : Usage :=
  ⟨u.registry.relabel f, u.wiring, u.directive.relabel f, u.element.relabel f,
    u.elementName.relabel f, u.argument.relabel f⟩

/-- The directive, the element and the argument have texts for names. -/
structure IsWorded (u : Usage) : Prop where
  directive : ∃ t, u.directive = .text t
  elementName : ∃ t, u.elementName = .text t
  argument : u.argument.HasName

/-! ## Names -/

/-- Steps that commute with maps. -/
theorem mapM_map_eq {α β ε : Type} {g : α → α} {h : β → β} {step : α → Except ε β}
    (hstep : ∀ a, step (g a) = (step a).map h) (as : List α) :
    (as.map g).mapM step = (as.mapM step).map (List.map h) := by
  induction as with
  | nil => rfl
  | cons a as ih =>
    rw [List.map_cons, List.mapM_cons, List.mapM_cons, hstep, ih]
    cases step a with
    | error e => rfl
    | ok b => cases as.mapM step <;> rfl

theorem names_relabel (ds : List Data) :
    names (ds.map (Data.relabel f)) = (names ds).map (List.map (Data.relabel f)) :=
  mapM_map_eq (fun d => d.get_relabel .name) ds

theorem keyed_relabel (ds : List Data) :
    keyed (ds.map (Data.relabel f)) = (keyed ds).map (Table.mapValues (Data.relabel f)) := by
  refine mapM_map_eq (h := fun e : Atom × Data => (e.1, e.2.relabel f)) (fun d => ?_) ds
  rw [Data.get_relabel]
  cases d.get .name with
  | error e => rfl
  | ok name =>
    change (name.relabel f).key >>= _ = Except.map _ (name.key >>= _)
    rw [Data.key_relabel]
    cases name.key <;> rfl

theorem joined_relabel (separator : Text) (ds : List Data) :
    joined separator (ds.map (Data.relabel f)) = joined separator ds := by
  rw [joined, joined, List.mapM_map]
  refine congrArg (fun x => x >>= _) (congrArg (fun step => ds.mapM step) (funext fun d => ?_))
  cases d with
  | atom a => rw [Function.comp_apply, Data.relabel_atom]
  | _ => rfl

theorem bracketed_relabel (ds : List Data) :
    bracketed (ds.map (Data.relabel f)) = bracketed ds := by
  rw [bracketed, bracketed, joined_relabel]

theorem isRequired_relabel (d : Data) : isRequired (d.relabel f) = isRequired d := by
  rw [isRequired, isRequired, Data.get_relabel, Data.get_relabel]
  cases d.get .type with
  | error e => rfl
  | ok type =>
    change (if (type.relabel f).isOf .nonNullType then _ else _) = ite _ _ _
    rw [Data.isOf_relabel]
    split
    · cases d.get .defaultValue with
      | error e => rfl
      | ok default => exact congrArg Except.ok default.isNull_relabel
    · rfl

variable {u : Usage} {v t d : Node}

theorem mirrors_mismatch (hu : u.IsWorded) (kind : Problem.Mismatch) (detail : Text)
    (value : Data) : Mirrors f (u.mismatch kind detail value)
      ((u.relabel f).mismatch kind detail (value.relabel f)) := by
  refine Check.mirrors_found ?_ ?_
  · simp [Problem.IsWorded, Problem.shown, hu.directive, hu.elementName, hu.argument.name_eq]
  · simp [Problem.relabel, Usage.relabel, name_relabel]

/-- What a literal holds that is shown in messages. -/
theorem shownValue_relabel (hv : v.IsLiteral) (hk : v.kind ∉ Registry.composite)
    (hnull : v.kind ≠ .nullValue) :
    shownValue (.node (v.relabel f)) = shownValue (.node v) := by
  have hcontent : ∃ a, v.content? .value = some (.atom a) := by
    obtain ⟨a, ha⟩ := hv.exists_atom
    have hr : .value ∈ v.slots.map Slot.role := by
      rw [hv.wellTyped.shaped.roles]
      have hkind := hv.kind
      rcases v with ⟨k, i, slots⟩
      cases k with
      | bare g => cases g <;> cases hkind
      | _ => simp_all [Node.kind, Kind.layout, Kind.isLiteral, Kind.isValue, Registry.composite]
    obtain ⟨d, hd⟩ := Option.isSome_iff_exists.1 (content?_isSome_of_mem hr)
    rw [content, hd] at ha
    exact ⟨a, hd.trans (congrArg some ha)⟩
  obtain ⟨a, ha⟩ := hcontent
  have hshown : ∀ n : Node, n.content? .value = some (.atom a) → shownValue (.node n) = .atom a :=
    fun n hn => by rw [shownValue, Data.node?, Option.bind_some, hn, Option.getD_some]
  rw [hshown v ha, hshown (v.relabel f) (by rw [content?_relabel, ha, Option.map_some,
    Data.relabel_atom])]

theorem mirrors_checkScalar (hu : u.IsWorded) (hw : u.wiring.Blind f) (hv : v.IsLiteral)
    (hnull : v.kind ≠ .nullValue) (hd : d.HasName) :
    Mirrors f (u.checkScalar (.node v) d)
      ((u.relabel f).checkScalar (.node (v.relabel f)) (d.relabel f)) := by
  unfold checkScalar
  rw [Data.isOneOf_node, Data.isOneOf_node, kind_relabel, hd.name_eq, hd.relabel.name_eq,
    nameText_relabel]
  by_cases hk : v.kind ∈ Registry.composite
  · rw [if_pos (decide_eq_true hk), if_pos (decide_eq_true hk), ← Data.relabel_node,
      Data.typeName_relabel]
    exact mirrors_mismatch hu _ _ _
  · rw [if_neg (mt of_decide_eq_true hk), if_neg (mt of_decide_eq_true hk),
      shownValue_relabel hv hk hnull]
    have hscalar : (Data.text d.nameText).text?.bind (u.relabel f).wiring.scalar? =
        (Data.text d.nameText).text?.bind u.wiring.scalar? := rfl
    rw [hscalar]
    cases hs : (Data.text d.nameText).text?.bind u.wiring.scalar? with
    | none => exact Check.mirrors_clean
    | some s =>
      have hfound : u.wiring.scalar? d.nameText = some s := hs
      have hcalls : (⟨[], s.calls (.node (v.relabel f))⟩ : Report) =
          (⟨[], s.calls (.node v)⟩ : Report).relabel f := by
        rw [Report.relabel, Scalar.calls, Scalar.calls]
        cases s.watched <;> simp [Call.relabel]
      dsimp only
      rw [hcalls]
      obtain ⟨x, y, hx, hy⟩ | ⟨e, hx, hy⟩ := (hw.scalar? hfound).parseLiteral.cases hv
      · rw [hx, hy]
        exact Check.mirrors_ok (Report.isWorded_calls _)
      · rw [hx, hy]
        refine Mirrors.ite ?_ (Check.mirrors_error e)
        exact (mirrors_mismatch hu _ _ _).after (Report.isWorded_calls _)

theorem mirrors_checkEnum (hu : u.IsWorded) (hv : v.IsLiteral) {ns : List Node}
    (hvalues : (d.content .values).items = ns.map Data.node) (hns : ∀ n ∈ ns, n.HasName) :
    Mirrors f (u.checkEnum (.node v) d)
      ((u.relabel f).checkEnum (.node (v.relabel f)) (d.relabel f)) := by
  have hfilter : ∀ n : Node, (Data.node n).node?.filter (fun n => n.kind = .enumValue) =
      if n.kind = .enumValue then some n else none := fun n => by
    by_cases hk : n.kind = .enumValue <;> simp [Data.node?, Option.filter, hk]
  unfold checkEnum
  rw [hfilter, hfilter, kind_relabel]
  by_cases hk : v.kind = .enumValue
  · obtain ⟨t, ht⟩ := Scalar.exists_text_of_kind hv.wellTyped (by simp [hk])
    rw [if_pos hk, if_pos hk]
    dsimp only
    rw [content_relabel, Data.items_relabel, names_relabel, hvalues, names_eq hns,
      hv.content_value_relabel, ht]
    refine .bind rfl fun allowed hallowed => ?_
    cases hallowed
    have hmap : ((ns.map Node.nameText).map Data.text).map (Data.relabel f) =
        (ns.map Node.nameText).map Data.text := by simp
    rw [hmap]
    refine Mirrors.ite Check.mirrors_clean ?_
    rw [bracketed_texts]
    exact mirrors_mismatch hu _ _ _
  · rw [if_neg hk, if_neg hk]
    dsimp only
    rw [← Data.relabel_node, Data.typeName_relabel]
    exact mirrors_mismatch hu _ _ _

theorem mirrors_checkKeys (hu : u.IsWorded) (hd : d.HasName) (given : List (Atom × Data)) :
    Mirrors f (u.checkKeys v d given)
      ((u.relabel f).checkKeys (v.relabel f) (d.relabel f)
        (Table.mapValues (Data.relabel f) given)) := by
  have hfirst : (Table.mapValues (Data.relabel f) given).map Prod.fst = given.map Prod.fst := by
    simp [Table.mapValues]
  unfold checkKeys
  rw [hfirst, hd.name_eq, hd.relabel.name_eq, nameText_relabel]
  by_cases htwice : repeatedNames (given.map Prod.fst) = []
  · have hkept : ∀ keep : Atom → Bool,
        ((Table.mapValues (Data.relabel f) given).filter fun e => keep e.1).map Prod.snd =
          ((given.filter fun e => keep e.1).map Prod.snd).map (Data.relabel f) := fun keep => by
      simp [Table.mapValues, List.filter_map, Function.comp_def]
    have hany : ∀ (declared : List (Atom × Data)) (a : Atom),
        ((Table.mapValues (Data.relabel f) declared).any fun e => e.1 = a) =
          declared.any fun e => e.1 = a := fun declared a => by
      simp [Table.mapValues, List.any_map, Function.comp_def]
    simp only [htwice, ne_eq, not_true_eq_false, if_false]
    rw [content_relabel, Data.items_relabel]
    refine .bind (keyed_relabel _) fun declared _ => ?_
    simp only [hany]
    rw [hkept fun a => !declared.any fun e => e.1 = a]
    refine .bind (names_relabel _) fun unknown _ => ?_
    rw [List.isEmpty_map, bracketed_relabel]
    exact Mirrors.ite Check.mirrors_clean
      (.bindSame fun shown _ => mirrors_mismatch hu _ _ (.node v))
  · have hfound : (repeatedNames (given.map Prod.fst)).filterMap
        (Table.get? (Table.mapValues (Data.relabel f) given)) =
          ((repeatedNames (given.map Prod.fst)).filterMap (Table.get? given)).map
            (Data.relabel f) := by
      simp [List.map_filterMap]
    simp only [htwice, ne_eq, not_false_eq_true, if_true]
    rw [hfound]
    refine .bind (names_relabel _) fun shown _ => ?_
    rw [joined_relabel]
    exact .bindSame fun joined _ => mirrors_mismatch hu _ _ (.node v)

theorem mirrors_checkMissing (hu : u.IsWorded) {i : Node} (hi : i.HasName) :
    Mirrors f (u.checkMissing v (.node i))
      ((u.relabel f).checkMissing (v.relabel f) (.node (i.relabel f))) := by
  unfold checkMissing
  rw [← Data.relabel_node, isRequired_relabel, Data.get_relabel, Data.get, hi]
  refine .bindSame fun b _ => Mirrors.ite ?_ Check.mirrors_clean
  refine .bind rfl fun name hname => ?_
  cases hname
  rw [Data.relabel_atom]
  exact mirrors_mismatch hu _ _ (.node v)

theorem mirrors_checkItem (hu : u.IsWorded) (item type : Data) :
    Mirrors f (u.checkItem item type)
      ((u.relabel f).checkItem (item.relabel f) (type.relabel f)) := by
  rw [checkItem, checkItem, Data.isOf_relabel, Data.isOf_relabel, Data.typeName_relabel]
  exact (mirrors_mismatch hu _ _ _).ite Check.mirrors_clean

/-! ## Types -/

/-- Comparisons of literals that are smaller than a bound are mirrored. -/
def MirrorsBelow (f : Metadata → Metadata) (u : Usage) (bound : Nat) : Prop :=
  ∀ x s : Node, x.size < bound → x.IsLiteral → s.IsReference →
    Mirrors f (u.matchesType (.node x) (.node s))
      ((u.relabel f).matchesType (.node (x.relabel f)) (.node (s.relabel f)))

/-- The fields of an object with other metadata, by name. -/
theorem field?_relabel (v : Node) (name : Atom) :
    (field? (v.relabel f) name).map Subtype.val =
      ((field? v name).map Subtype.val).map (Data.relabel f) := by
  have hfield : ∀ n : Node, (field? n name).map Subtype.val =
      (n.content .fields).items.find? fun d =>
        (d.get .name >>= Data.key).toOption = some name := fun n => by
    unfold field?
    split
    · rename_i d hd
      exact hd.symm
    · rename_i hnone
      exact hnone.symm
  have hkey : ∀ d : Data, ((d.relabel f).get .name >>= Data.key) = (d.get .name >>= Data.key) := by
    intro d
    rw [Data.get_relabel]
    cases d.get .name with
    | error e => rfl
    | ok d => exact d.key_relabel
  rw [hfield, hfield, content_relabel, Data.items_relabel, List.find?_map]
  simp only [Function.comp_def, hkey]

/-- A declared field of an object, and the value that is given for it. -/
theorem mirrors_checkDeclared {i : Node} (hu : u.IsWorded) (hv : v.IsLiteral)
    (hvk : v.kind = .objectValue) (hi : i.WellTyped) (hik : i.kind = .inputValueDefinition)
    (hbelow : MirrorsBelow f u v.size) :
    Mirrors f (u.checkDeclared v (.node i))
      ((u.relabel f).checkDeclared (v.relabel f) (.node (i.relabel f))) := by
  obtain ⟨hitems, hfields⟩ := hv.fields hvk
  obtain ⟨hname, s, hs, hsget, href⟩ := hi.inputValue hik
  have hspec := field?_spec hitems (fun f hf => ((hfields f hf).1.entry (.inl (hfields f hf).2)).1)
    i.nameText
  have hfield := field?_relabel (f := f) v (.text i.nameText)
  rw [checkDeclared_eq hname, checkDeclared_eq hname.relabel, nameText_relabel]
  cases hfound : field? v (.text i.nameText) with
  | none =>
    rw [hfound, Option.map_none, Option.map_none, Option.map_eq_none_iff] at hfield
    rw [hfield]
    exact mirrors_checkMissing hu hname
  | some d =>
    rw [hfound] at hfield hspec
    obtain ⟨d', hd', hval⟩ := Option.map_eq_some_iff.1 hfield
    obtain ⟨g, hg, hdg, -⟩ := hspec
    obtain ⟨-, x, hx, hxget, hlit⟩ := (hfields g hg).1.entry (.inl (hfields g hg).2)
    rw [hd']
    dsimp only
    rw [hval, hdg, Data.get_relabel, get_relabel, Data.get, hxget, hsget]
    have hsize : x.size < v.size :=
      Nat.lt_trans (size_lt_of_child? (child?_eq hx)) (size_lt_of_mem_childrenAt hg)
    have hbelow := hbelow x s hsize hlit href
    rw [← Data.relabel_node, ← Data.relabel_node] at hbelow
    exact hbelow

section Named

variable {n : Node}

/-- A type of objects whose definition, with its extensions, is given. -/
theorem mirrors_matchesType_object {name : Atom} (hu : u.IsWorded)
    (hr : u.registry.WellTyped) (hbelow : MirrorsBelow f u v.size) (ht : t.kind = .namedType)
    (hv : v.IsLiteral) (hnull : v.kind ≠ .nullValue) (hname : t.key = .ok name)
    (hn : u.registry.extendedType? name = .ok (some n)) (hwell : n.WellTyped)
    (hk : n.kind = .typeDefinition .inputObject) :
    Mirrors f (u.matchesType (.node v) (.node t))
      ((u.relabel f).matchesType (.node (v.relabel f)) (.node (t.relabel f))) := by
  obtain ⟨hdefined, hdeclared⟩ := hwell.typeMembers (r := .fields) (m := .inputValueDefinition)
    (.inl hk) (by simp [Kind.members]) (by simp [Kind.admits])
  have hn' : (u.relabel f).registry.extendedType? name = .ok (some (n.relabel f)) := by
    rw [relabel, hr.extendedType?_relabel, hn]
    rfl
  rw [matchesType_object ht hnull hname hn hk,
    matchesType_object (by rwa [kind_relabel]) (by rwa [kind_relabel]) (by rwa [key_relabel]) hn'
      (by rwa [kind_relabel]), kind_relabel, content_relabel, content_relabel, Data.items_relabel,
      Data.items_relabel]
  by_cases hvk : v.kind = .objectValue
  · rw [if_pos hvk, if_pos hvk]
    refine .bind (keyed_relabel _) fun given _ => ?_
    refine (mirrors_checkKeys hu (hwell.hasName (by rw [hk]; simp [Kind.layout])) given).andThen
      fun report _ hworded => ?_
    rw [Report.isClean_relabel]
    refine Mirrors.ite ?_ (Check.mirrors_ok hworded)
    rw [hdefined]
    exact .eachNode fun i hi =>
      mirrors_checkDeclared hu hv hvk (hdeclared i hi).1 (hdeclared i hi).2 hbelow
  · rw [if_neg hvk, if_neg hvk]
    unfold notObject
    rw [← Data.relabel_node, Data.typeName_relabel]
    exact mirrors_mismatch hu _ _ _

/-- A name of a type. -/
theorem mirrors_matchesType_named (hu : u.IsWorded) (hr : u.registry.WellTyped)
    (hw : u.wiring.Blind f) (hbelow : MirrorsBelow f u v.size) (hv : v.IsLiteral)
    (ht : t.IsReference) (hk : t.kind = .namedType) :
    Mirrors f (u.matchesType (.node v) (.node t))
      ((u.relabel f).matchesType (.node (v.relabel f)) (.node (t.relabel f))) := by
  have hname := (ht.hasName hk).key_eq
  have hk' : (t.relabel f).kind = .namedType := by rwa [kind_relabel]
  have hname' : (t.relabel f).key = .ok (.text t.nameText) := by rwa [key_relabel]
  by_cases hnull : v.kind = .nullValue
  · rw [matchesType_null hk hnull, matchesType_null hk' (by rwa [kind_relabel])]
    exact Check.mirrors_clean
  have hnull' : (v.relabel f).kind ≠ .nullValue := by rwa [kind_relabel]
  have hfound : ∀ found, u.registry.extendedType? (.text t.nameText) = .ok found →
      (u.relabel f).registry.extendedType? (.text t.nameText) =
        .ok (found.map (Node.relabel f)) := fun found h => by
    rw [relabel, hr.extendedType?_relabel, h]
    rfl
  cases hbase : u.registry.type? (.text t.nameText) with
  | none =>
    have hn := Registry.extendedType?_of_none hbase
    rw [matchesType_passed hk hnull hname hn, matchesType_passed hk' hnull' hname' (hfound _ hn)]
    exact Check.mirrors_clean
  | some base =>
    obtain ⟨k, hentry⟩ := hr.type? hbase
    obtain ⟨n, hn, hkind, -, hwell, -, -⟩ := hr.extendedType?_eq hbase hentry.kind
    have hkn : n.kind = .typeDefinition k := hkind.trans hentry.kind
    have hn' := hfound _ hn
    have hkn' : (n.relabel f).kind = .typeDefinition k := by rwa [kind_relabel]
    cases k with
    | scalar =>
      rw [matchesType_scalar hk hnull hname hn hkn, matchesType_scalar hk' hnull' hname' hn' hkn']
      exact mirrors_checkScalar hu hw hv hnull (hwell.hasName (by rw [hkn]; simp [Kind.layout]))
    | enum =>
      obtain ⟨hdefined, hnames⟩ := hwell.enumValues hkn
      rw [matchesType_enum hk hnull hname hn hkn, matchesType_enum hk' hnull' hname' hn' hkn']
      exact mirrors_checkEnum hu hv hdefined hnames
    | inputObject => exact mirrors_matchesType_object hu hr hbelow hk hv hnull hname hn hwell hkn
    | _ =>
      rw [matchesType_output hk hnull hname hn hkn rfl,
        matchesType_output hk' hnull' hname' hn' hkn' rfl]
      exact Check.mirrors_clean

end Named

/-- Comparing a literal with a type. As in the comparison itself, a value that stands for a list of
one item stays as it is while the type gets smaller; otherwise the value gets smaller. -/
theorem mirrors_matchesType {v t : Node} (hu : u.IsWorded) (hr : u.registry.WellTyped)
    (hw : u.wiring.Blind f) (hv : v.IsLiteral) (ht : t.IsReference) :
    Mirrors f (u.matchesType (.node v) (.node t))
      ((u.relabel f).matchesType (.node (v.relabel f)) (.node (t.relabel f))) := by
  have hbelow : MirrorsBelow f u v.size :=
    fun x s hx hlit href => mirrors_matchesType hu hr hw hlit href
  have hkind' : ∀ {k : Kind}, t.kind = k → (t.relabel f).kind = k :=
    fun h => t.kind_relabel.trans h
  have hinner' : ∀ {inner : Node}, t.content .type = .node inner →
      (t.relabel f).content .type = .node (inner.relabel f) :=
    fun h => by rw [content_relabel, h, Data.relabel_node]
  rcases ht.kind_cases with hk | hk | hk
  · obtain ⟨inner, hinner, href⟩ := ht.inner (.inl hk)
    have hsize := size_lt_of_child? (child?_eq hinner)
    rw [matchesType_nonNull hk hinner, matchesType_nonNull (hkind' hk) (hinner' hinner),
      kind_relabel]
    exact .ite (mirrors_mismatch hu _ _ (.node v)) (mirrors_matchesType hu hr hw hv href)
  · obtain ⟨inner, hinner, href⟩ := ht.inner (.inr hk)
    have hsize := size_lt_of_child? (child?_eq hinner)
    rw [matchesType_list hk hinner, matchesType_list (hkind' hk) (hinner' hinner), kind_relabel]
    refine .ite Check.mirrors_clean ?_
    by_cases hlist : v.kind = .listValue
    · obtain ⟨hitems, hlit⟩ := hv.items hlist
      rw [if_pos hlist, if_pos hlist, content_relabel, Data.items_relabel, hitems]
      exact .eachNode fun item hitem => (mirrors_checkItem hu (.node item) (.node inner)).both
        (hbelow item inner (size_lt_of_mem_childrenAt hitem) (hlit item hitem) href)
    · rw [if_neg hlist, if_neg hlist]
      exact mirrors_matchesType hu hr hw hv href
  · exact mirrors_matchesType_named hu hr hw hbelow hv ht hk
termination_by (v.size, t.size)

/-! ## Arguments -/

theorem mirrors_coerce (hu : u.IsWorded) (hw : u.wiring.Blind f) (hv : v.IsLiteral) :
    Mirrors f (u.coerce (.node v)) ((u.relabel f).coerce (.node (v.relabel f))) := by
  unfold coerce
  have hcoercer : (do
      (u.relabel f).wiring.coercer? (← (u.relabel f).directive.text?)
        (← (u.relabel f).argument.name.text?)) =
      (do u.wiring.coercer? (← u.directive.text?) (← u.argument.name.text?)) := by
    rw [relabel, Data.text?_relabel, name_relabel, Data.text?_relabel]
  rw [hcoercer]
  cases hc : (do u.wiring.coercer? (← u.directive.text?) (← u.argument.name.text?)) with
  | none => exact Check.mirrors_clean
  | some c =>
    obtain ⟨directive, -, hc⟩ := Option.bind_eq_some_iff.1 hc
    obtain ⟨argument, -, hc⟩ := Option.bind_eq_some_iff.1 hc
    have hcall : (⟨[], [c.call (.node (v.relabel f))]⟩ : Report) =
        (⟨[], [c.call (.node v)]⟩ : Report).relabel f := by
      simp [Report.relabel, Callback.call, Call.relabel]
    dsimp only
    rw [hcall]
    obtain ⟨x, y, hx, hy⟩ | ⟨e, hx, hy⟩ := GraphSchema.Blind.cases (hw.coercer? hc) hv
    · rw [hx, hy]
      exact Check.mirrors_ok (Report.isWorded_calls _)
    · rw [hx, hy]
      exact .ite ((mirrors_mismatch hu _ _ (.node v)).after (Report.isWorded_calls _))
        (Check.mirrors_error e)

/-- The value of an argument. -/
theorem mirrors_checkArgument (hu : u.IsWorded) (hr : u.registry.WellTyped)
    (hw : u.wiring.Blind f) (hvalue : u.argument.get .value = .ok (.node v)) (hv : v.IsLiteral)
    (ht : t.IsReference) :
    Mirrors f (u.checkArgument (.node t)) ((u.relabel f).checkArgument (.node (t.relabel f))) := by
  have hvalue' : (u.relabel f).argument.get .value = .ok (.node (v.relabel f)) := by
    rw [relabel, get_relabel, hvalue, ← Data.relabel_node]
    rfl
  rw [checkArgument, checkArgument, hvalue, hvalue', ok_bind, ok_bind]
  refine (mirrors_matchesType hu hr hw hv ht).andThen fun report _ hworded => ?_
  rw [Report.isClean_relabel]
  exact .ite ((mirrors_coerce hu hw hv).after hworded) (Check.mirrors_ok hworded)

end Usage

end GraphSchema
