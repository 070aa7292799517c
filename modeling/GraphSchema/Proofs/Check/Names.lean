import GraphSchema.Check.Usage
import GraphSchema.Proofs.Check.Conforms
import GraphSchema.Proofs.Check.Report
import Mathlib.Data.List.Nodup

/-!
# Names of fields

Names of well-typed nodes can be read and written into messages without failing. The fields of an
object are found by their names.

## Main statements

* `Usage.names_eq`, `Usage.keyed_eq`: the names of nodes.
* `Usage.repeatedNames_eq_nil_iff`: no name comes twice.
* `Usage.isRequired_eq`: whether a field must be given.
* `Usage.field?_spec`: fields by name.
-/

namespace GraphSchema

theorem Data.isOf_node (n : Node) (k : Kind) : (Data.node n).isOf k = decide (n.kind = k) := rfl

theorem Data.isOneOf_node (n : Node) (ks : List Kind) :
    (Data.node n).isOneOf ks = decide (n.kind ∈ ks) := by
  rw [isOneOf, Bool.eq_iff_iff, List.any_eq_true, decide_eq_true_iff]
  constructor
  · intro hmem
    obtain ⟨k, hk, h⟩ := hmem
    rwa [of_decide_eq_true h]
  · intro h
    exact ⟨n.kind, h, decide_eq_true rfl⟩

theorem Data.same_text (s t : Text) : (Data.text s).same (.text t) = decide (s = t) := by
  simp [same, Atom.same_text]

namespace Usage

variable {ns : List Node}

/-! ## Reading and writing names -/

theorem joined_texts (separator : Text) (ts : List Text) :
    joined separator (ts.map Data.text) = .ok (Text.intercalate separator ts) := by
  rw [joined, List.mapM_map, mapM_eq_ok (g := id)]
  · rw [List.map_id]
    rfl
  · intro t _
    rfl

theorem bracketed_texts (ts : List Text) :
    bracketed (ts.map Data.text) = .ok ("['" ++ Text.intercalate "', '" ts ++ "']") := by
  rw [bracketed, joined_texts]
  rfl

theorem names_eq (h : ∀ n ∈ ns, n.HasName) :
    names (ns.map Data.node) = .ok ((ns.map Node.nameText).map Data.text) := by
  rw [names, List.mapM_map, List.map_map]
  exact mapM_eq_ok h

/-- Names of nodes of which it is not known which they are. -/
theorem names_texts {ds : List Data} (h : ∀ d ∈ ds, ∃ n, d = .node n ∧ n.HasName) :
    ∃ ts : List Text, names ds = .ok (ts.map Data.text) := by
  have hnodes : ∃ ns : List Node, ds = ns.map Data.node ∧ ∀ n ∈ ns, n.HasName := by
    induction ds with
    | nil => exact ⟨[], rfl, by simp⟩
    | cons d ds ih =>
      obtain ⟨n, rfl, hn⟩ := h d List.mem_cons_self
      obtain ⟨ns, rfl, hns⟩ := ih fun e he => h e (List.mem_cons_of_mem _ he)
      exact ⟨n :: ns, rfl, List.forall_mem_cons.2 ⟨hn, hns⟩⟩
  obtain ⟨ns, rfl, hns⟩ := hnodes
  exact ⟨_, names_eq hns⟩

theorem keyed_eq (h : ∀ n ∈ ns, n.HasName) :
    keyed (ns.map Data.node) = .ok (ns.map fun n => (.text n.nameText, .node n)) := by
  rw [keyed, List.mapM_map]
  refine mapM_eq_ok fun n hn => ?_
  change (do return (← (← n.get .name).key, Data.node n)) = _
  rw [h n hn]
  rfl

theorem repeatedNames_eq_nil_iff {as : List Atom} : repeatedNames as = [] ↔ as.Nodup := by
  rw [repeatedNames, List.filter_eq_nil_iff, List.nodup_iff_count_le_one]
  constructor
  · intro h a
    by_cases ha : a ∈ as
    · have := h a (List.mem_eraseDups.2 ha)
      simpa using this
    · rw [List.count_eq_zero_of_not_mem ha]
      omega
  · intro h a _
    have := h a
    simp only [decide_eq_true_eq]
    omega

/-! ## Declared fields -/

/-- Whether what is declared must be given. -/
theorem isRequired_eq {i : Node} (hi : i.WellTyped) (hk : i.kind = .inputValueDefinition) :
    ∃ b, isRequired (.node i) = .ok b ∧ (b = true ↔ i.IsRequired) := by
  have hdefault : (.defaultValue, .child true) ∈ i.kind.layout := by rw [hk]; simp [Kind.layout]
  obtain ⟨-, type, hcontent, hget, -⟩ := hi.inputValue hk
  have hrequired : i.IsRequired ↔
      type.kind = .nonNullType ∧ (i.content .defaultValue).isNull = true := by
    rw [Node.IsRequired, Node.child?_eq hcontent, Data.isNull_iff]
    simp
  rw [hrequired]
  change ∃ b, (do
    if (← i.get .type).isOf .nonNullType then return (← i.get .defaultValue).isNull
    else return false) = Except.ok b ∧ _
  rw [hget, hi.get_eq hdefault]
  by_cases hnon : type.kind = .nonNullType
  · refine ⟨(i.content .defaultValue).isNull, ?_, by simp [hnon]⟩
    change (if (Data.node type).isOf .nonNullType then _ else _) = _
    rw [if_pos (by simpa [Data.isOf_node] using hnon)]
    rfl
  · refine ⟨false, ?_, by simp [hnon]⟩
    change (if (Data.node type).isOf .nonNullType then _ else _) = _
    rw [if_neg (by simpa [Data.isOf_node] using hnon)]
    rfl

/-- Fields of an object by name. -/
theorem field?_spec {v : Node}
    (hitems : (v.content .fields).items = (v.childrenAt .fields).map .node)
    (hnames : ∀ f ∈ v.childrenAt .fields, f.HasName) (name : Text) :
    match field? v (.text name) with
    | none => ∀ f ∈ v.childrenAt .fields, f.nameText ≠ name
    | some d => ∃ f ∈ v.childrenAt .fields, d.1 = .node f ∧ f.nameText = name := by
  have hkey : ∀ f ∈ v.childrenAt .fields, ((((Data.node f).get .name >>= Data.key).toOption =
      some (.text name)) ↔ f.nameText = name) := by
    intro f hf
    change (((f.get .name) >>= Data.key).toOption = _) ↔ _
    rw [hnames f hf]
    change some (Atom.text f.nameText) = _ ↔ _
    simp
  cases h : field? v (.text name) with
  | none =>
    unfold field? at h
    split at h
    · cases h
    · rename_i hnone
      intro f hf hname
      have hmem : Data.node f ∈ (v.content .fields).items := by
        rw [hitems]
        exact List.mem_map.2 ⟨f, hf, rfl⟩
      exact List.find?_eq_none.1 hnone _ hmem (by simpa using (hkey f hf).2 hname)
  | some d =>
    unfold field? at h
    split at h
    · rename_i e hsome
      cases h
      have hmem := List.mem_of_find?_eq_some hsome
      rw [hitems, List.mem_map] at hmem
      obtain ⟨f, hf, rfl⟩ := hmem
      have hfound := List.find?_some hsome
      exact ⟨f, hf, rfl, (hkey f hf).1 (by simpa using hfound)⟩
    · cases h

end Usage

end GraphSchema
