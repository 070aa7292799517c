import GraphSchema.Proofs.Node.Formed

/-!
# Nodes from their slots

A node whose slots fit the attributes of its kind, one by one, is well typed. Whether a node is well
typed does not depend on the places of nodes.

## Main definitions

* `Slot.Fits`: a slot fits an attribute.

## Main statements

* `Node.wellTyped_mk`: a node is well typed if its slots fit.
* `Node.WellTyped.of_plain`: a node is well typed if it is so apart from its place.
-/

namespace GraphSchema

/-- A slot of a node of a kind has the role of an attribute and holds what it should, and the nodes
in it are well typed. -/
structure Slot.Fits (k : Kind) (s : Slot) (entry : Role × Shape) : Prop where
  role : s.role = entry.1
  content : entry.2.Fits k entry.1 s.content
  below : ∀ c ∈ s.content.nodes, c.WellTyped

namespace Slot

variable {k : Kind} {r : Role}

theorem fits_truth {b : Option Bool} {x : Bool} (h : k.holdsTruth r = true) :
    (datum r (.bool x)).Fits k (r, .datum b) where
  role := rfl
  content := by simp only [Shape.Fits, h, if_true]; exact ⟨x, rfl⟩
  below := by simp [datum, Slot.content, Data.nodes, Data.items]

theorem fits_text {b : Option Bool} {t : Text} (h : k.holdsTruth r = false) :
    (datum r (.text t)).Fits k (r, .datum b) where
  role := rfl
  content := by simp only [Shape.Fits, h, Bool.false_eq_true, if_false]; exact ⟨t, rfl⟩
  below := by simp [datum, Slot.content, Data.nodes, Data.items]

theorem fits_child {b : Bool} {n : Node} (h : k.admits r n.kind) (hn : n.WellTyped) :
    (child r n).Fits k (r, .child b) where
  role := rfl
  content := .inr ⟨n, rfl, h⟩
  below := by simpa [child, Slot.content, Data.nodes] using hn

theorem fits_absent : (datum r .null).Fits k (r, .child true) where
  role := rfl
  content := .inl ⟨rfl, rfl⟩
  below := by simp [datum, Slot.content, Data.nodes, Data.items]

theorem fits_description {n : Node} (h : k.admits r n.kind) (hn : n.WellTyped) :
    (child r n).Fits k (r, .description) where
  role := rfl
  content := .inr ⟨n, rfl, h⟩
  below := by simpa [child, Slot.content, Data.nodes] using hn

theorem fits_undescribed : (datum r .null).Fits k (r, .description) where
  role := rfl
  content := .inl rfl
  below := by simp [datum, Slot.content, Data.nodes, Data.items]

theorem fits_children {ns : List Node} (h : ∀ n ∈ ns, k.admits r n.kind ∧ n.WellTyped) :
    (children r ns).Fits k (r, .children) where
  role := rfl
  content := ⟨ns, rfl, fun n hn => (h n hn).1⟩
  below := by
    rw [nodes_content_children]
    exact fun n hn => (h n hn).2

end Slot

namespace Node

/-- A node is well typed if its slots fit the attributes of its kind. -/
theorem wellTyped_mk {k : Kind} {info : Metadata} {slots : List Slot}
    (h : List.Forall₂ (Slot.Fits k) slots k.layout) : (mk k info slots).WellTyped := by
  have hfits : ∀ s e, Slot.Fits k s e → s.role = e.1 := fun _ _ hfits => hfits.role
  have hroles : slots.map Slot.role = k.layout.map Prod.fst := map_role_of_forall₂ hfits h
  refine .intro ⟨hroles, ?_⟩ ?_
  · intro r s hr
    obtain ⟨slot, hslot, hfits⟩ := find?_role_of_forall₂ hfits h k.nodup_roles hr
    have hcontent : (mk k info slots).content r = slot.content := by
      rw [content, content?, slot?, Node.slots, hslot]
      rfl
    rw [hcontent]
    exact hfits.content
  · intro r c hc
    by_cases hr : r ∈ k.layout.map Prod.fst
    · obtain ⟨⟨_, s⟩, hs, rfl⟩ := List.mem_map.1 hr
      obtain ⟨slot, hslot, hfits⟩ := find?_role_of_forall₂ hfits h k.nodup_roles hs
      rw [childrenAt, content, content?, slot?, Node.slots, hslot] at hc
      exact hfits.below c hc
    · rw [childrenAt, content_eq_null_of_not_mem (hroles ▸ hr)] at hc
      cases hc

/-! ## Nodes apart from their places -/

@[simp] theorem kind_plain (n : Node) : n.plain.kind = n.kind := by
  cases n
  simp [kind]

theorem slots_plain (n : Node) : n.plain.slots = n.slots.map Slot.plain := by
  cases n
  simp [slots]

theorem role_plain (s : Slot) : s.plain.role = s.role := by
  cases s
  simp [Slot.plain, Slot.role]

theorem content_plain (n : Node) (r : Role) : n.plain.content r = (n.content r).plain := by
  have hrole : (fun s : Slot => decide (s.role = r)) ∘ Slot.plain =
      fun s => decide (s.role = r) := by
    funext s
    simp [role_plain]
  rw [content, content?, slot?, slots_plain, List.find?_map, hrole, content, content?, slot?]
  cases n.slots.find? fun s => s.role = r with
  | none => simp
  | some s => exact Slot.content_plain s

theorem childrenAt_plain (n : Node) (r : Role) :
    n.plain.childrenAt r = (n.childrenAt r).map Node.plain := by
  rw [childrenAt, content_plain, Data.nodes_plain, childrenAt]

end Node

theorem Data.eq_atom_of_plain {d : Data} {a : Atom} (h : d.plain = .atom a) : d = .atom a := by
  cases d <;> simp_all [plain]

theorem Data.exists_node_of_plain {d : Data} {n : Node} (h : d.plain = .node n) :
    ∃ m, d = .node m ∧ m.plain = n := by
  cases d <;> simp_all [plain]

theorem Data.exists_nodeList_of_plain {d : Data} {ns : List Node} (h : d.plain = .nodeList ns) :
    ∃ ms : List Node, d = .nodeList ms ∧ ms.map Node.plain = ns := by
  cases d with
  | list ds =>
    simp only [plain_list, nodeList, list.injEq] at h
    induction ds generalizing ns with
    | nil => exact ⟨[], rfl, by cases ns <;> simp_all⟩
    | cons d ds ih =>
      cases ns with
      | nil => simp at h
      | cons n ns =>
        simp only [List.map_cons, List.cons.injEq] at h
        obtain ⟨m, rfl, hm⟩ := exists_node_of_plain h.1
        obtain ⟨ms, hms, hns⟩ := ih h.2
        cases hms
        exact ⟨m :: ms, rfl, by rw [List.map_cons, hm, hns]⟩
  | _ => simp_all [plain, nodeList]

theorem Shape.fits_of_plain {k : Kind} {r : Role} {s : Shape} {d : Data} (h : s.Fits k r d.plain) :
    s.Fits k r d := by
  cases s with
  | datum b =>
    by_cases htruth : k.holdsTruth r = true
    · simp only [Fits, htruth, if_true] at h ⊢
      obtain ⟨x, hx⟩ := h
      exact ⟨x, Data.eq_atom_of_plain hx⟩
    · simp only [Fits, if_neg htruth] at h ⊢
      obtain ⟨t, ht⟩ := h
      exact ⟨t, Data.eq_atom_of_plain ht⟩
  | description =>
    rcases h with h | ⟨c, hc, hk⟩
    · exact .inl (Data.eq_atom_of_plain h)
    · obtain ⟨m, rfl, rfl⟩ := Data.exists_node_of_plain hc
      exact .inr ⟨m, rfl, by simpa using hk⟩
  | child b =>
    rcases h with ⟨hb, h⟩ | ⟨c, hc, hk⟩
    · exact .inl ⟨hb, Data.eq_atom_of_plain h⟩
    · obtain ⟨m, rfl, rfl⟩ := Data.exists_node_of_plain hc
      exact .inr ⟨m, rfl, by simpa using hk⟩
  | children =>
    obtain ⟨cs, hcs, hk⟩ := h
    obtain ⟨ms, rfl, rfl⟩ := Data.exists_nodeList_of_plain hcs
    exact ⟨ms, rfl, fun c hc => by simpa using hk c.plain (List.mem_map.2 ⟨c, hc, rfl⟩)⟩

/-- A node is well typed if it is so apart from its place. -/
theorem Node.WellTyped.of_plain {n : Node} (h : n.plain.WellTyped) : n.WellTyped := by
  generalize hm : n.plain = m at h
  induction h generalizing n with
  | @intro m shaped _ ih =>
    subst hm
    refine .intro ⟨?_, fun r s hr => ?_⟩ fun r c hc => ?_
    · have hroles := shaped.roles
      rw [slots_plain, List.map_map, kind_plain] at hroles
      exact (List.map_congr_left fun s _ => (role_plain s).symm).trans hroles
    · have hfits := shaped.fits r s (by simpa using hr)
      rw [kind_plain, content_plain] at hfits
      exact Shape.fits_of_plain hfits
    · refine ih r c.plain ?_ rfl
      rw [childrenAt_plain]
      exact List.mem_map.2 ⟨c, hc, rfl⟩

end GraphSchema
