import GraphSchema.Node.Equality
import GraphSchema.Node.Record
import GraphSchema.Proofs.Node.Formed
import GraphSchema.Proofs.Node.Relabel
import GraphSchema.Proofs.Node.Slots
import GraphSchema.Proofs.Table

/-!
# Records and equality

Two comparisons of nodes: attribute by attribute, and as records. Both look at the kinds, at the
offsets and at what all attributes hold, all the way down, and at nothing else.

## Main definitions

* `Data.agrees`: equality of data where the fields of a record come in any order.
* `Node.essence`: a node without its metadata but for the offsets.
* `Node.Typed`: the attributes hold texts, truth values, nodes and lists of nodes, as the kind has
  it.
* `Node.Compares`: a relation of nodes that compares kinds, offsets and attributes.

## Main statements

* `Node.Compares.iff`: there is only one such relation on typed nodes.
* `Node.Typed.same_iff_agrees_toRecord`: equality, equality of records and equality of essences are
  the same, and other metadata do not count.
-/

namespace GraphSchema

mutual

/-- Whether two data are equal; records may have their fields in any order. -/
def Data.agrees : Data → Data → Bool
  | .atom a, .atom b => a.same b
  | .list as, .list bs => itemsAgree as bs
  | .record as, .record bs => as.length = bs.length && fieldsAgree as bs
  | .node a, .node b => a.same b
  | _, _ => false

/-- Whether two lists of data are equal, item by item. -/
def itemsAgree : List Data → List Data → Bool
  | [], [] => true
  | a :: as, b :: bs => a.agrees b && itemsAgree as bs
  | _, _ => false

/-- Whether a table has what fields hold under their keys. -/
def fieldsAgree : List (Text × Data) → Table Text Data → Bool
  | [], _ => true
  | (key, a) :: rest, t => (t.get? key).any (a.agrees ·) && fieldsAgree rest t

end

theorem fieldsAgree_iff {fields : List (Text × Data)} {t : Table Text Data} :
    fieldsAgree fields t ↔ ∀ e ∈ fields, ∃ b, t.get? e.1 = some b ∧ e.2.agrees b := by
  induction fields with
  | nil => simp [fieldsAgree]
  | cons e rest ih =>
    rw [fieldsAgree, Bool.and_eq_true, ih, List.forall_mem_cons, Option.any_eq_true]

theorem Kind.mem_all (k : Kind) : k ∈ all := by
  cases k with
  | bare g => cases g <;> decide
  | typeDefinition k => cases k <;> decide
  | typeExtension k => cases k <;> decide
  | _ => decide

theorem Kind.label_injective : Function.Injective label := by
  have hlabel : ∀ k ∈ all, ofLabel? k.label = some k := by decide +kernel
  intro k l h
  have hk := hlabel k k.mem_all
  rw [h, hlabel l l.mem_all] at hk
  exact (Option.some.inj hk).symm

/-- An absent value, a truth value or a text. -/
def Atom.IsWord (a : Atom) : Prop := a = .null ∨ (∃ b, a = .bool b) ∨ ∃ t, a = .text t

/-- Words are equal just if they are the same. -/
theorem Atom.IsWord.same_iff {a b : Atom} (ha : a.IsWord) (hb : b.IsWord) : a.same b ↔ a = b := by
  rcases ha with rfl | ⟨x, rfl⟩ | ⟨s, rfl⟩ <;> rcases hb with rfl | ⟨y, rfl⟩ | ⟨t, rfl⟩ <;>
    simp [same, key]
  cases x <;> cases y <;> simp

/-- What an attribute of a shape holds, whatever the kinds of the nodes in it. -/
def Shape.Suits : Shape → Data → Prop
  | datum _, d => ∃ a : Atom, a.IsWord ∧ d = .atom a
  | description, d => d = .null ∨ ∃ c, d = .node c
  | child _, d => d = .null ∨ ∃ c, d = .node c
  | children, d => ∃ cs, d = .nodeList cs

theorem Shape.Fits.suits {k : Kind} {r : Role} {s : Shape} {d : Data} (h : s.Fits k r d) :
    s.Suits d := by
  cases s with
  | datum b =>
    simp only [Fits] at h
    split at h
    · obtain ⟨b, rfl⟩ := h
      exact ⟨_, .inr (.inl ⟨b, rfl⟩), rfl⟩
    · obtain ⟨t, rfl⟩ := h
      exact ⟨_, .inr (.inr ⟨t, rfl⟩), rfl⟩
  | description => exact h.imp id (Exists.imp fun _ => And.left)
  | child b => exact h.imp And.right (Exists.imp fun _ => And.left)
  | children => exact h.imp fun _ => And.left

theorem map_eq_map_iff_forall₂ {α β γ : Type} {f : α → γ} {g : β → γ} {as : List α}
    {bs : List β} : as.map f = bs.map g ↔ List.Forall₂ (fun a b => f a = g b) as bs := by
  rw [← List.forall₂_eq_eq_eq, List.forall₂_map_left_iff, List.forall₂_map_right_iff]

theorem Data.exists_of_relabel_eq_node {d : Data} {c : Node} {f : Metadata → Metadata}
    (h : d.relabel f = .node c) : ∃ b, d = .node b := by
  cases d with
  | node b => exact ⟨b, rfl⟩
  | record fields => simp [relabel] at h
  | _ => simp at h

theorem Data.eq_atom_of_relabel_eq_atom {d : Data} {a : Atom} {f : Metadata → Metadata}
    (h : d.relabel f = .atom a) : d = .atom a := by
  cases d with
  | atom b => simpa using h
  | record fields => simp [relabel] at h
  | _ => simp at h

theorem Data.exists_of_relabel_eq_nodeList {d : Data} {cs : List Node} {f : Metadata → Metadata}
    (h : d.relabel f = .nodeList cs) : ∃ bs, d = .nodeList bs := by
  cases d with
  | list ds =>
    rw [relabel_list, nodeList, Data.list.injEq, map_eq_map_iff_forall₂] at h
    induction h with
    | nil => exact ⟨[], rfl⟩
    | cons hd _ ih =>
      obtain ⟨b, rfl⟩ := exists_of_relabel_eq_node hd
      obtain ⟨bs, hbs⟩ := ih
      rw [nodeList, Data.list.injEq] at hbs
      exact ⟨b :: bs, by rw [hbs, nodeList, List.map_cons]⟩
  | record fields => simp [relabel, nodeList] at h
  | _ => simp [nodeList] at h

/-- Metadata do not count for what an attribute holds. -/
theorem Shape.Suits.of_relabel {s : Shape} {d : Data} {f : Metadata → Metadata}
    (h : s.Suits (d.relabel f)) : s.Suits d := by
  have hoptional : (d.relabel f = .null ∨ ∃ c, d.relabel f = .node c) →
      (d = .null ∨ ∃ c, d = .node c) :=
    Or.imp Data.eq_atom_of_relabel_eq_atom fun ⟨_, hc⟩ => Data.exists_of_relabel_eq_node hc
  cases s with
  | datum =>
    obtain ⟨a, ha, hd⟩ := h
    exact ⟨a, ha, Data.eq_atom_of_relabel_eq_atom hd⟩
  | description => exact hoptional h
  | child => exact hoptional h
  | children =>
    obtain ⟨cs, hd⟩ := h
    exact Data.exists_of_relabel_eq_nodeList hd

theorem Shape.Suits.relabel {s : Shape} {d : Data} (h : s.Suits d) (f : Metadata → Metadata) :
    s.Suits (d.relabel f) := by
  have hoptional : (d = .null ∨ ∃ c, d = .node c) →
      (d.relabel f = .null ∨ ∃ c, d.relabel f = .node c) := by
    rintro (rfl | ⟨c, rfl⟩)
    · exact .inl (Data.relabel_atom _)
    · exact .inr ⟨_, Data.relabel_node c⟩
  cases s with
  | datum =>
    obtain ⟨a, ha, rfl⟩ := h
    exact ⟨a, ha, Data.relabel_atom a⟩
  | description => exact hoptional h
  | child => exact hoptional h
  | children =>
    obtain ⟨cs, rfl⟩ := h
    exact ⟨_, Data.relabel_nodeList cs⟩

namespace Node

/-- The node and all nodes below it have the attributes of their kinds, which hold texts, truth
values, nodes and lists of nodes as they should. -/
inductive Typed : Node → Prop
  | intro {n : Node} (roles : n.slots.map Slot.role = n.kind.layout.map Prod.fst)
      (suits : ∀ r s, (r, s) ∈ n.kind.layout → s.Suits (n.content r))
      (below : ∀ r, ∀ c ∈ n.childrenAt r, c.Typed) : n.Typed

theorem WellTyped.typed {n : Node} (h : n.WellTyped) : n.Typed := by
  induction h with
  | intro shaped _ ih => exact .intro shaped.roles (fun r s hr => (shaped.fits r s hr).suits) ih

theorem Typed.formed {n : Node} (h : n.Typed) : n.Formed := by
  cases h with
  | intro roles suits _ =>
    refine ⟨roles, fun r hr => ?_⟩
    obtain ⟨cs, hcs⟩ := suits r _ hr
    exact ⟨_, hcs⟩

/-! ## Comparisons -/

/-- A relation of nodes and one of what attributes hold: nodes of one kind are compared by their
offsets and by what each of their attributes holds. -/
structure Compares (node : Node → Node → Prop) (data : Data → Data → Prop) : Prop where
  node_iff : ∀ {a b}, a.Formed → b.Formed → (node a b ↔ a.kind = b.kind ∧
    a.info.span = b.info.span ∧ ∀ e ∈ a.kind.layout, data (a.content e.1) (b.content e.1))
  word_iff : ∀ {x y : Atom}, x.IsWord → y.IsWord → (data (.atom x) (.atom y) ↔ x = y)
  single_iff : ∀ {a b}, data (.node a) (.node b) ↔ node a b
  several_iff : ∀ {as bs}, data (.nodeList as) (.nodeList bs) ↔ List.Forall₂ node as bs
  not_word_single : ∀ {x b}, ¬data (.atom x) (.node b)
  not_single_word : ∀ {a y}, ¬data (.node a) (.atom y)

theorem forall₂_iff_of_mem {α β : Type} {R S : α → β → Prop} {as : List α} {bs : List β}
    (h : ∀ a ∈ as, ∀ b ∈ bs, (R a b ↔ S a b)) : List.Forall₂ R as bs ↔ List.Forall₂ S as bs := by
  induction as generalizing bs with
  | nil => simp
  | cons a as ih =>
    cases bs with
    | nil => simp
    | cons b bs =>
      rw [List.forall₂_cons, List.forall₂_cons, h a List.mem_cons_self b List.mem_cons_self,
        ih fun a ha b hb => h a (List.mem_cons_of_mem _ ha) b (List.mem_cons_of_mem _ hb)]

section

variable {N N' : Node → Node → Prop} {D D' : Data → Data → Prop} {a b : Node}

/-- What two attributes of a shape hold is compared alike if the nodes in it are. -/
theorem Compares.data_iff (h : Compares N D) (h' : Compares N' D') {s : Shape} {d e : Data}
    (hd : s.Suits d) (he : s.Suits e) (hnodes : ∀ a ∈ d.nodes, ∀ b ∈ e.nodes, (N a b ↔ N' a b)) :
    D d e ↔ D' d e := by
  have hoptional : (d = .null ∨ ∃ c, d = .node c) → (e = .null ∨ ∃ c, e = .node c) →
      (D d e ↔ D' d e) := by
    rintro (rfl | ⟨a, rfl⟩) (rfl | ⟨b, rfl⟩)
    · rw [h.word_iff (.inl rfl) (.inl rfl), h'.word_iff (.inl rfl) (.inl rfl)]
    · exact iff_of_false h.not_word_single h'.not_word_single
    · exact iff_of_false h.not_single_word h'.not_single_word
    · rw [h.single_iff, h'.single_iff]
      exact hnodes a (List.mem_singleton_self a) b (List.mem_singleton_self b)
  cases s with
  | datum =>
    obtain ⟨x, hx, rfl⟩ := hd
    obtain ⟨y, hy, rfl⟩ := he
    rw [h.word_iff hx hy, h'.word_iff hx hy]
  | description => exact hoptional hd he
  | child => exact hoptional hd he
  | children =>
    obtain ⟨as, rfl⟩ := hd
    obtain ⟨bs, rfl⟩ := he
    rw [h.several_iff, h'.several_iff]
    rw [Data.nodes_nodeList, Data.nodes_nodeList] at hnodes
    exact forall₂_iff_of_mem hnodes

/-- All comparisons of typed nodes are the same. -/
theorem Compares.iff (h : Compares N D) (h' : Compares N' D') (ha : a.Typed) (hb : b.Typed) :
    N a b ↔ N' a b := by
  induction ha generalizing b with
  | @intro a roles suits below ih =>
    have hform := (Typed.intro roles suits below).formed
    rw [h.node_iff hform hb.formed, h'.node_iff hform hb.formed]
    refine and_congr_right fun hkind => and_congr_right fun _ => forall₂_congr fun e he => ?_
    cases hb with
    | intro _ suits' below' =>
      refine h.data_iff h' (suits e.1 e.2 he) (suits' e.1 e.2 (hkind ▸ he)) fun c hc d hd => ?_
      exact ih e.1 c hc (below' e.1 d hd)

end

/-! ## Equality of nodes -/

theorem same_eq (a b : Node) : a.same b =
    (a.kind = b.kind && a.info.span = b.info.span && sameSlots a.slots b.slots) := by
  cases a
  cases b
  rw [same]
  rfl

theorem sameSlots_map_iff {l : List (Role × Shape)} {f g : Role → Data} :
    sameSlots (l.map fun e => .mk e.1 (f e.1)) (l.map fun e => .mk e.1 (g e.1)) ↔
      ∀ e ∈ l, (f e.1).same (g e.1) := by
  induction l with
  | nil => simp [sameSlots]
  | cons e l ih => simp [sameSlots, Slot.same, ih]

theorem sameItems_map_iff {as bs : List Node} :
    sameItems (as.map Data.node) (bs.map Data.node) ↔
      List.Forall₂ (fun a b : Node => a.same b) as bs := by
  induction as generalizing bs with
  | nil => cases bs <;> simp [sameItems]
  | cons a as ih => cases bs <;> simp [sameItems, Data.same, ih]

/-- Equality of nodes compares them. -/
theorem compares_same : Compares (fun a b => a.same b) (fun d e => d.same e) where
  node_iff {a b} ha hb := by
    rw [same_eq, Bool.and_eq_true, Bool.and_eq_true, decide_eq_true_iff, decide_eq_true_iff,
      and_assoc, ha.slots_eq, hb.slots_eq]
    refine and_congr_right fun hkind => ?_
    rw [← hkind, sameSlots_map_iff]
  word_iff hx hy := by rw [Data.same, hx.same_iff hy]
  single_iff := by simp [Data.same]
  several_iff := by simp only [Data.nodeList, Data.same, sameItems_map_iff, implies_true]
  not_word_single := by simp [Data.same]
  not_single_word := by simp [Data.same]

/-! ## Essences -/

end Node

/-- Only the offsets are known. -/
def Metadata.offsets (i : Metadata) : Metadata := { Metadata.none with span := i.span }

theorem Metadata.offsets_eq_iff {i j : Metadata} : i.offsets = j.offsets ↔ i.span = j.span := by
  simp [offsets]

namespace Node

/-- A node with its kind, its attributes and its offsets, all the way down. -/
def essence (n : Node) : Node := n.relabel Metadata.offsets

theorem Formed.relabel_eq {n : Node} (h : n.Formed) (f : Metadata → Metadata) :
    n.relabel f = .mk n.kind (f n.info)
      (n.kind.layout.map fun e => .mk e.1 ((n.content e.1).relabel f)) := by
  have hmk : n.relabel f = .mk n.kind (f n.info) (n.slots.map (Slot.relabel f)) := by
    cases n
    exact relabel_mk ..
  rw [hmk, h.slots_eq, List.map_map]
  simp only [Function.comp_def, Slot.relabel]

theorem compares_essence :
    Compares (fun a b => a.essence = b.essence)
      (fun d e => d.relabel Metadata.offsets = e.relabel Metadata.offsets) where
  node_iff {a b} ha hb := by
    rw [essence, essence, ha.relabel_eq, hb.relabel_eq, Node.mk.injEq, Metadata.offsets_eq_iff]
    refine and_congr_right fun hkind => and_congr_right fun _ => ?_
    rw [← hkind, List.map_inj_left]
    simp
  word_iff _ _ := by simp
  single_iff := by simp [essence]
  several_iff := by
    simp [Data.nodeList, essence, Function.comp_def, map_eq_map_iff_forall₂]
  not_word_single := by simp
  not_single_word := by simp

/-! ## Records -/

/-- How a node becomes a record of its attributes, its offsets and the name of its kind. -/
def framing : Framing := fun k i fields => .record (fields ++ [spanEntry i, kindEntry k])

theorem toRecord_eq_framed (n : Node) : n.toRecord = n.framed framing := rfl

/-- The fields of the record of a node. -/
def recordFields (n : Node) : Table Text Data :=
  (n.kind.layout.map fun e => (e.1.label, (n.content e.1).framed framing)) ++
    [spanEntry n.info, kindEntry n.kind]

theorem framedSlots_eq_map (frame : Framing) (slots : List Slot) :
    framedSlots frame slots = slots.map (Slot.framed frame) := by
  induction slots with
  | nil => rfl
  | cons s rest ih => rw [framedSlots, ih, List.map_cons]

theorem framedItems_map_node (frame : Framing) (ns : List Node) :
    framedItems frame (ns.map Data.node) = ns.map (Node.framed frame) := by
  induction ns with
  | nil => rfl
  | cons n rest ih => rw [List.map_cons, framedItems, ih, List.map_cons, Data.framed]

theorem Formed.toRecord_eq {n : Node} (h : n.Formed) : n.toRecord = .record n.recordFields := by
  have hmk : n.framed framing = framing n.kind n.info (n.slots.map (Slot.framed framing)) := by
    cases n
    rw [framed, framedSlots_eq_map]
    rfl
  rw [toRecord_eq_framed, hmk, h.slots_eq, List.map_map, framing, recordFields]
  simp only [Function.comp_def, Slot.framed]

theorem exists_framed (n : Node) : ∃ fields, n.framed framing = .record fields := by
  cases n
  exact ⟨_, rfl⟩

theorem mem_recordFields {n : Node} {p : Text × Data} : p ∈ n.recordFields ↔
    (∃ e ∈ n.kind.layout, p = (e.1.label, (n.content e.1).framed framing)) ∨
      p = spanEntry n.info ∨ p = kindEntry n.kind := by
  simp only [recordFields, List.mem_append, List.mem_map, List.mem_cons, List.not_mem_nil, or_false,
    eq_comm (a := p)]

/-- No two fields of a record have one name. -/
theorem nodup_keys_recordFields (n : Node) : n.recordFields.keys.Nodup := by
  have hother : ∀ r : Role, r.label ≠ "loc" ∧ r.label ≠ "__kind__" := by
    intro r
    cases r <;> decide
  have hlabels : (n.kind.layout.map fun e => e.1.label).Nodup := by
    have h := n.kind.nodup_roles.map Role.label_injective
    rwa [List.map_map] at h
  simp only [Table.keys, recordFields, List.map_append, List.map_map, Function.comp_def,
    List.map_cons, List.map_nil, spanEntry, kindEntry]
  refine List.nodup_append.2 ⟨hlabels, by decide, ?_⟩
  intro key hkey other hmem heq
  obtain ⟨e, -, rfl⟩ := List.mem_map.1 hkey
  rcases List.mem_pair.1 hmem with rfl | rfl
  · exact (hother e.1).1 heq
  · exact (hother e.1).2 heq

/-- A record agrees with another one in a field that the other one has. -/
theorem agrees_of_mem_recordFields {n : Node} {key : Text} {d e : Data}
    (h : ∃ x, n.recordFields.get? key = some x ∧ d.agrees x) (he : (key, e) ∈ n.recordFields) :
    d.agrees e := by
  obtain ⟨x, hx, hd⟩ := h
  rw [Table.get?_of_mem n.nodup_keys_recordFields he] at hx
  cases hx
  exact hd

theorem agrees_text {s t : Text} :
    (Data.text s).agrees (.text t) ↔ s = t := by
  simp [Data.agrees, Atom.same_text]

theorem toData_agrees_iff {s t : Option Span} :
    (Data.ofOption Span.toData s).agrees (Data.ofOption Span.toData t) ↔ s = t := by
  have hint : ∀ x y : Int, (Atom.int x).same (.int y) ↔ x = y := by simp [Atom.same, Atom.key]
  cases s with
  | none => cases t <;> simp [Data.ofOption, Span.toData, Data.agrees, Atom.same]
  | some s =>
    cases t with
    | none => simp [Data.ofOption, Span.toData, Data.agrees]
    | some t =>
      obtain ⟨i, j⟩ := s
      obtain ⟨k, l⟩ := t
      simp [Data.ofOption, Span.toData, Data.agrees, itemsAgree, hint]

theorem itemsAgree_map_iff {as bs : List Node} :
    itemsAgree (as.map (Node.framed framing)) (bs.map (Node.framed framing)) ↔
      List.Forall₂ (fun a b : Node => a.toRecord.agrees b.toRecord) as bs := by
  induction as generalizing bs with
  | nil => cases bs <;> simp [itemsAgree]
  | cons a as ih => cases bs <;> simp [itemsAgree, toRecord_eq_framed, ih]

/-- Equality of records compares nodes. -/
theorem compares_agrees :
    Compares (fun a b => a.toRecord.agrees b.toRecord)
      (fun d e => (d.framed framing).agrees (e.framed framing)) where
  node_iff {a b} ha hb := by
    rw [ha.toRecord_eq, hb.toRecord_eq, Data.agrees, Bool.and_eq_true, decide_eq_true_iff,
      fieldsAgree_iff]
    constructor
    · rintro ⟨-, h⟩
      have hkind : a.kind = b.kind := Kind.label_injective <| agrees_text.1 <|
        agrees_of_mem_recordFields (h (kindEntry a.kind) (by simp [mem_recordFields]))
          (mem_recordFields.2 (.inr (.inr rfl)))
      refine ⟨hkind, toData_agrees_iff.1 <|
        agrees_of_mem_recordFields (h (spanEntry a.info) (by simp [mem_recordFields]))
          (mem_recordFields.2 (.inr (.inl rfl))), fun e he => ?_⟩
      exact agrees_of_mem_recordFields (h _ (mem_recordFields.2 (.inl ⟨e, he, rfl⟩)))
        (mem_recordFields.2 (.inl ⟨e, hkind ▸ he, rfl⟩))
    · rintro ⟨hkind, hspan, h⟩
      refine ⟨by simp [recordFields, hkind], fun p hp => ?_⟩
      have hfound : ∀ {key : Text} {d e : Data}, (key, e) ∈ b.recordFields → d.agrees e →
          ∃ x, b.recordFields.get? key = some x ∧ d.agrees x :=
        fun he hd => ⟨_, Table.get?_of_mem b.nodup_keys_recordFields he, hd⟩
      rcases mem_recordFields.1 hp with ⟨e, he, rfl⟩ | rfl | rfl
      · exact hfound (mem_recordFields.2 (.inl ⟨e, hkind ▸ he, rfl⟩)) (h e he)
      · exact hfound (mem_recordFields.2 (.inr (.inl rfl))) (toData_agrees_iff.2 hspan)
      · exact hfound (mem_recordFields.2 (.inr (.inr rfl)))
          (agrees_text.2 (congrArg Kind.label hkind))
  word_iff hx hy := by simp only [Data.framed, Data.agrees, hx.same_iff hy]
  single_iff := by simp only [Data.framed, toRecord_eq_framed, implies_true]
  several_iff := by
    simp only [Data.nodeList, Data.framed, framedItems_map_node, Data.agrees, itemsAgree_map_iff,
      implies_true]
  not_word_single {x b} := by
    obtain ⟨fields, hb⟩ := b.exists_framed
    simp [Data.framed, hb, Data.agrees]
  not_single_word {a y} := by
    obtain ⟨fields, ha⟩ := a.exists_framed
    simp [Data.framed, ha, Data.agrees]

theorem toData_injective : Function.Injective (Data.ofOption Span.toData) := by
  intro s t h
  cases s with
  | none => cases t <;> simp_all [Data.ofOption, Span.toData]
  | some s =>
    cases t with
    | none => simp [Data.ofOption, Span.toData] at h
    | some t =>
      obtain ⟨i, j⟩ := s
      obtain ⟨k, l⟩ := t
      simpa [Data.ofOption, Span.toData] using h

/-- So does equality of records as they are written. -/
theorem compares_toRecord :
    Compares (fun a b => a.toRecord = b.toRecord)
      (fun d e => d.framed framing = e.framed framing) where
  node_iff {a b} ha hb := by
    rw [ha.toRecord_eq, hb.toRecord_eq, Data.record.injEq]
    constructor
    · intro h
      obtain ⟨hfields, hends⟩ := List.append_inj' h rfl
      obtain ⟨hspan, hkind, -⟩ : spanEntry a.info = spanEntry b.info ∧
        kindEntry a.kind = kindEntry b.kind ∧ True := by simpa using hends
      obtain hkind : a.kind = b.kind :=
        Kind.label_injective (by simpa [kindEntry] using congrArg Prod.snd hkind)
      rw [← hkind, List.map_inj_left] at hfields
      exact ⟨hkind, toData_injective (congrArg Prod.snd hspan),
        fun e he => congrArg Prod.snd (hfields e he)⟩
    · rintro ⟨hkind, hspan, h⟩
      rw [recordFields, recordFields, ← hkind, spanEntry, spanEntry, hspan,
        List.map_congr_left fun e he => by rw [h e he]]
  word_iff hx hy := by simp [Data.framed]
  single_iff := by simp [Data.framed, toRecord_eq_framed]
  several_iff := by
    simp only [Data.nodeList, Data.framed, framedItems_map_node, Data.list.injEq,
      map_eq_map_iff_forall₂, toRecord_eq_framed, implies_true]
  not_word_single {x b} := by
    obtain ⟨fields, hb⟩ := b.exists_framed
    simp [Data.framed, hb]
  not_single_word {a y} := by
    obtain ⟨fields, ha⟩ := a.exists_framed
    simp [Data.framed, ha]

/-! ## Nodes with other metadata -/

/-- Metadata do not count for whether a node is typed. -/
theorem typed_relabel_iff {n : Node} {f : Metadata → Metadata} : (n.relabel f).Typed ↔ n.Typed := by
  constructor
  · intro h
    generalize hm : n.relabel f = m at h
    induction h generalizing n with
    | @intro m roles suits below ih =>
      subst hm
      rw [map_role_relabel, kind_relabel] at roles
      refine .intro roles (fun r s hr => ?_) fun r c hc => ?_
      · have h := suits r s (by rwa [kind_relabel])
        rw [content_relabel] at h
        exact h.of_relabel
      · refine ih r (c.relabel f) ?_ rfl
        rw [childrenAt_relabel]
        exact List.mem_map_of_mem hc
  · intro h
    induction h with
    | @intro n roles suits below ih =>
      refine .intro (by rw [map_role_relabel, kind_relabel, roles]) (fun r s hr => ?_)
        fun r c hc => ?_
      · rw [kind_relabel] at hr
        rw [content_relabel]
        exact (suits r s hr).relabel f
      · rw [childrenAt_relabel] at hc
        obtain ⟨d, hd, rfl⟩ := List.mem_map.1 hc
        exact ih r d hd

theorem Typed.of_essence_eq {a b : Node} (ha : a.Typed) (h : b.essence = a.essence) : b.Typed := by
  have hessence : a.essence.Typed := typed_relabel_iff.2 ha
  rw [← h] at hessence
  exact typed_relabel_iff.1 hessence

/-- Nodes are equal just if their records are, which is the case just if they have one kind, the
same offsets and the same attributes, all the way down. Other metadata change nothing about
either. -/
theorem Typed.same_iff_agrees_toRecord {a b : Node} (ha : a.Typed) (hb : b.Typed) :
    (a.same b ↔ a.toRecord.agrees b.toRecord) ∧ (a.same b ↔ a.essence = b.essence) ∧
      ∀ a' b' : Node, a'.essence = a.essence → b'.essence = b.essence →
        a'.same b' = a.same b ∧ a'.toRecord = a.toRecord ∧ b'.toRecord = b.toRecord := by
  have hsame {a b : Node} (ha : a.Typed) (hb : b.Typed) : a.same b ↔ a.essence = b.essence :=
    compares_same.iff compares_essence ha hb
  have hrecord {a b : Node} (ha : a.Typed) (h : b.essence = a.essence) : b.toRecord = a.toRecord :=
    (compares_toRecord.iff compares_essence (ha.of_essence_eq h) ha).2 h
  refine ⟨compares_same.iff compares_agrees ha hb, hsame ha hb, fun a' b' ha' hb' => ?_⟩
  refine ⟨?_, hrecord ha ha', hrecord hb hb'⟩
  rw [Bool.eq_iff_iff, hsame (ha.of_essence_eq ha') (hb.of_essence_eq hb'), hsame ha hb, ha', hb']

/-- The parameter `size: Int` with a description and a default value. -/
def sizeParameter (info : Metadata) (digits : Text) : Node :=
  .mk .inputValueDefinition { Metadata.none with span := some ⟨0, 20⟩ }
    [.child .description (.mk .stringValue info
      [.datum .value (.text "How many"), .datum .block (.bool false)]),
     .datum .name (.text "size"),
     .child .type (.mk .namedType .none [.datum .name (.text "Int")]),
     .child .defaultValue (.mk .intValue .none [.datum .value (.text digits)]),
     .children .directives []]

theorem wellTyped_sizeParameter (info : Metadata) (digits : Text) :
    (sizeParameter info digits).WellTyped :=
  wellTyped_mk (.cons
    (Slot.fits_description rfl
      (wellTyped_mk (.cons (Slot.fits_text rfl) (.cons (Slot.fits_truth rfl) .nil))))
    (.cons (Slot.fits_text rfl) (.cons
      (Slot.fits_child rfl (wellTyped_mk (.cons (Slot.fits_text rfl) .nil))) (.cons
        (Slot.fits_child rfl (wellTyped_mk (.cons (Slot.fits_text rfl) .nil)))
        (.cons (Slot.fits_children (by simp)) .nil)))))

/-- Another default value makes another record, comments in front of the description do not. -/
theorem Typed.same_iff_agrees_toRecord_sizeParameter :
    (sizeParameter .none "1").Typed ∧ (sizeParameter .none "2").Typed ∧
      ¬(sizeParameter .none "1").toRecord.agrees (sizeParameter .none "2").toRecord ∧
      (sizeParameter { Metadata.none with comments := [.text " note"] } "1").toRecord =
        (sizeParameter .none "1").toRecord := by
  have ha := (wellTyped_sizeParameter .none "1").typed
  have hb := (wellTyped_sizeParameter .none "2").typed
  obtain ⟨hrecord, hsame, hother⟩ := Typed.same_iff_agrees_toRecord ha hb
  refine ⟨ha, hb, fun h => ?_, (hother _ _ ?_ rfl).2.1⟩
  · have h := hsame.1 (hrecord.2 h)
    simp only [essence, sizeParameter, relabel_mk, List.map_cons, Slot.relabel_child,
      Slot.relabel_datum, Node.mk.injEq, List.cons.injEq] at h
    have hdigits : (Text.ofString "1") = Text.ofString "2" := by
      simpa [Slot.child, Slot.datum] using h.2.2.2.2.2.1
    exact absurd hdigits (by decide)
  · simp [essence, sizeParameter, Metadata.offsets]

end Node

end GraphSchema
