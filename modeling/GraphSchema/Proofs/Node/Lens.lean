import GraphSchema.Proofs.Node.Formed
import GraphSchema.Proofs.Table

/-!
# Reading and replacing children

The children of a node are read and replaced by role. What was put is read again, putting what was
read changes nothing, and of two changes the later one counts.

## Main definitions

* `Kind.HasChildRole`, `Kind.HasRoom`: which children a node of a kind takes.
* `Kind.Takes`: other children that a node takes.
* `Slot.heldParts`, `Node.heldSlotFor`: children and slots for them, where one child and several are
  told apart by what a role holds now.

## Main statements

* `Node.slotFor_cases`: a slot for other children.
* `Node.Formed.namedChildren_eq_heldParts`, `Node.Formed.slotFor_eq_heldSlotFor`: the layout and
  what the roles hold say the same.
* `Node.Formed.withChildren_cases`: a copy with other children.
* `Node.Formed.withChildren_lens`: reading and replacing children.
-/

namespace GraphSchema

open Node

/-- Children go by the name in nodes of the kind. -/
def Kind.HasChildRole (k : Kind) (name : Text) : Prop :=
  ∃ r shape, (r, shape) ∈ k.layout ∧ shape.holdsChildren ∧ r.label = name

/-- There is at most one child where nodes of the kind hold a single one. -/
def Kind.HasRoom (k : Kind) (name : Text) (ds : List Data) : Prop :=
  ∀ r optional, (r, .child optional) ∈ k.layout → r.label = name → ds.length ≤ 1

/-- Nodes of the kind take the children. -/
def Kind.Takes (k : Kind) (entry : Text × List Data) : Prop :=
  k.HasChildRole entry.1 ∧ k.HasRoom entry.1 entry.2

/-- Whether a datum is a sequence. -/
def Data.isSequence : Data → Bool
  | .list _ => true
  | _ => false

/-- The children that a slot holds: those in a sequence if it holds one, else a single one. -/
def Slot.heldParts (s : Slot) : List Data :=
  if s.content.isSequence then s.content.items
  else if s.content.isNull then [] else [s.content]

namespace Node

variable {n : Node} {k : Kind} {m m₂ : Table Text (List Data)} {r : Role}

/-! ## One role -/

theorem shapeAt_eq {shape : Shape} (h : (r, shape) ∈ k.layout) : shapeAt k r = shape := by
  rw [shapeAt, Kind.shape?_eq h]
  rfl

theorem isChildRole_eq {shape : Shape} (h : (r, shape) ∈ k.layout) :
    k.isChildRole r = shape.holdsChildren := by
  rw [Kind.isChildRole, Kind.shape?_eq h]
  rfl

theorem exists_of_isChildRole (h : k.isChildRole r = true) :
    ∃ shape, (r, shape) ∈ k.layout ∧ shape.holdsChildren := by
  obtain ⟨shape, hshape, hholds⟩ := (Option.any_eq_true _ _).1 h
  exact ⟨shape, Kind.shape?_eq_some_iff.1 hshape, hholds⟩

/-- A slot with other children is there for what a node takes, and for nothing else. -/
theorem slotFor_cases (k : Kind) (entry : Text × List Data) :
    (k.Takes entry ∧ ∃ r shape, (r, shape) ∈ k.layout ∧ shape.holdsChildren ∧ r.label = entry.1 ∧
      slotFor k entry.1 entry.2 = .ok (refill shape r entry.2)) ∨
    ¬k.Takes entry ∧ ∃ f, slotFor k entry.1 entry.2 = .error f ∧ f.failure.category = .value := by
  obtain ⟨name, ds⟩ := entry
  by_cases hrole : k.HasChildRole name
  · obtain ⟨r, shape, hlayout, hholds, rfl⟩ := hrole
    have hslot : slotFor k r.label ds =
        if shape ≠ .children ∧ 1 < ds.length then .error (.singleChild k r.label ds.length)
        else .ok (refill shape r ds) := by
      rw [slotFor_label ((isChildRole_eq hlayout).trans hholds), shapeAt_eq hlayout]
    by_cases hfull : shape ≠ .children ∧ 1 < ds.length
    · rw [if_pos hfull] at hslot
      refine .inr ⟨fun htakes => ?_, _, hslot, rfl⟩
      cases shape with
      | child optional => exact absurd hfull.2 (Nat.not_lt.2 (htakes.2 r optional hlayout rfl))
      | children => exact hfull.1 rfl
      | _ => cases hholds
    · rw [if_neg hfull] at hslot
      refine .inl ⟨⟨⟨r, shape, hlayout, hholds, rfl⟩, fun q optional hq hlabel => ?_⟩,
        r, shape, hlayout, hholds, rfl, hslot⟩
      obtain rfl := Role.label_injective hlabel
      have hshape := Kind.shape_eq_of_mem hlayout hq
      exact Nat.le_of_not_lt fun hlt => hfull ⟨by rw [hshape]; exact nofun, hlt⟩
  · refine .inr ⟨fun htakes => hrole htakes.1, .noChildRole k name, ?_, rfl⟩
    have hnone : (Role.ofLabel? name).filter k.isChildRole = none := by
      cases hlabel : Role.ofLabel? name with
      | none => rfl
      | some r =>
        have hname : r.label = name := by simpa using List.find?_some hlabel
        refine Option.filter_eq_none_iff.2 fun q hq hchild => ?_
        obtain rfl := Option.some.inj hq
        obtain ⟨shape, hlayout, hholds⟩ := exists_of_isChildRole hchild
        exact hrole ⟨r, shape, hlayout, hholds, hname⟩
    rw [slotFor, hnone]

/-- Children of one kind of place, put and read again. -/
theorem parts_refill {shape : Shape} {ds : List Data} (hholds : shape.holdsChildren)
    (hroom : shape ≠ .children → ds.length ≤ 1) (hpresent : ∀ d ∈ ds, ¬d.isNull) :
    (refill shape r ds).parts shape = ds := by
  by_cases hshape : shape = .children
  · subst hshape
    rfl
  · have hlength := hroom hshape
    rw [refill, if_neg hshape, Slot.parts, if_neg hshape]
    match ds with
    | [] => rfl
    | [d] => simp [Slot.content, hpresent d List.mem_cons_self]

/-- Children of one kind of place, read and put again. -/
theorem refill_parts {shape : Shape} {d : Data} (hseq : shape = .children → ∃ ds, d = .list ds) :
    (refill shape r ((Slot.mk r d).parts shape)).content = d := by
  by_cases hshape : shape = .children
  · obtain ⟨ds, rfl⟩ := hseq hshape
    subst hshape
    rfl
  · rw [refill, if_neg hshape, Slot.parts, if_neg hshape]
    by_cases hnull : d.isNull
    · obtain rfl := Data.isNull_iff.1 hnull
      rfl
    · simp [Slot.content, hnull]

/-! ## One child or several, by what a role holds -/

/-- A slot for other children; there is room for several if the role holds a sequence now. -/
def heldSlotFor (n : Node) (name : Text) (ds : List Data) : Except Fault Slot :=
  match (Role.ofLabel? name).filter n.kind.isChildRole with
  | none => .error (.noChildRole n.kind name)
  | some r =>
    if (n.content r).isSequence then .ok (.mk r (.list ds))
    else if 1 < ds.length then .error (.singleChild n.kind name ds.length)
    else .ok (.mk r (ds.head?.getD .null))

/-- No single child is a sequence. -/
def SinglesApart (n : Node) : Prop :=
  ∀ r optional, (r, .child optional) ∈ n.kind.layout → (n.content r).isSequence = false

theorem Shaped.singlesApart (h : n.Shaped) : n.SinglesApart := by
  intro r optional hr
  rcases h.fits r _ hr with ⟨-, hnull⟩ | ⟨c, hc, -⟩
  · rw [hnull]
    rfl
  · rw [hc]
    rfl

/-- A role holds a sequence just if the layout says that there may be several children. -/
theorem Formed.isSequence_content (h : n.Formed) (hsingle : n.SinglesApart)
    (hr : n.kind.isChildRole r) :
    (n.content r).isSequence = decide (shapeAt n.kind r = .children) := by
  obtain ⟨shape, hlayout, hholds⟩ := exists_of_isChildRole hr
  rw [shapeAt_eq hlayout]
  cases shape with
  | children =>
    obtain ⟨ds, hds⟩ := h.sequences r hlayout
    rw [hds]
    rfl
  | child optional => exact hsingle r optional hlayout
  | _ => cases hholds

/-- The children are the same when one child and several are told apart by what the roles hold. -/
theorem Formed.namedChildren_eq_heldParts (h : n.Formed) (hsingle : n.SinglesApart) :
    n.namedChildren = n.childSlots.map fun s => (s.role, s.heldParts) := by
  refine List.map_congr_left fun s hs => Prod.ext rfl ?_
  obtain ⟨hslot, hrole⟩ := List.mem_filter.1 hs
  have hcontent : s.content = n.content s.role := by
    rw [h.slots_eq] at hslot
    obtain ⟨e, -, rfl⟩ := List.mem_map.1 hslot
    rfl
  simp only [Slot.parts, Slot.heldParts, hcontent, h.isSequence_content hsingle hrole,
    decide_eq_true_eq]

/-- Other children are taken or refused alike when one child and several are told apart by what the
roles hold. -/
theorem Formed.slotFor_eq_heldSlotFor (h : n.Formed) (hsingle : n.SinglesApart) (name : Text)
    (ds : List Data) : slotFor n.kind name ds = n.heldSlotFor name ds := by
  rw [slotFor, heldSlotFor]
  cases hfound : (Role.ofLabel? name).filter n.kind.isChildRole with
  | none => rfl
  | some r =>
    have hseq := h.isSequence_content hsingle (Option.filter_eq_some_iff.1 hfound).2
    by_cases hshape : shapeAt n.kind r = .children
    · simp [hseq, hshape, refill]
    · simp [hseq, hshape, refill]

/-! ## Other children -/

theorem withChildren_nil (n : Node) : n.withChildren [] = .ok n := by
  cases n
  rfl

/-- Changes one after the other. -/
theorem withChildren_cons (n : Node) (entry : Text × List Data) (m : Table Text (List Data)) :
    n.withChildren (entry :: m) = slotFor n.kind entry.1 entry.2 >>= fun s =>
      (n.withSlots (putSlot s n.slots)).withChildren m := by
  unfold withChildren
  rw [List.mapM_cons]
  cases slotFor n.kind entry.1 entry.2 with
  | error f => rfl
  | ok s =>
    rw [ok_bind, ok_bind]
    have hkind : (n.withSlots (putSlot s n.slots)).kind = n.kind := rfl
    rw [hkind]
    cases m.mapM fun entry => slotFor n.kind entry.1 entry.2 with
    | error f => rfl
    | ok slots => rfl

/-- What an attribute holds after children were given for it. -/
def refilledAt (n : Node) (r : Role) (given : Option (List Data)) : Data :=
  given.elim (n.content r) fun ds => (refill (shapeAt n.kind r) r ds).content

/-- The node differs from another one in the children that were given for it only. -/
structure Differs (n n' : Node) (m : Table Text (List Data)) : Prop where
  formed : n'.Formed
  kind : n'.kind = n.kind
  info : n'.info = n.info
  content : ∀ r, n'.content r = n.refilledAt r ((Table.ofLast m).get? r.label)

theorem role_refill (shape : Shape) (r : Role) (ds : List Data) : (refill shape r ds).role = r := by
  unfold refill
  split <;> rfl

namespace Formed

/-- A copy with other children is there for what a node takes, and for nothing else. -/
theorem withChildren_cases (h : n.Formed) (m : Table Text (List Data)) :
    ((∀ e ∈ m, n.kind.Takes e) ∧ ∃ n', n.withChildren m = .ok n' ∧ n.Differs n' m) ∨
    (∃ e ∈ m, ¬n.kind.Takes e) ∧
      ∃ f, n.withChildren m = .error f ∧ f.failure.category = .value := by
  induction m generalizing n with
  | nil => exact .inl ⟨by simp, n, withChildren_nil n, h, rfl, rfl, fun r => rfl⟩
  | cons entry m ih =>
    rcases slotFor_cases n.kind entry with
      ⟨htakes, r, shape, hlayout, hholds, hlabel, hslot⟩ | ⟨hnot, f, hslot, hvalue⟩
    · rw [withChildren_cons, hslot, ok_bind]
      have hput : (n.withSlots (putSlot (refill shape r entry.2) n.slots)).Formed := by
        refine h.put (by rw [role_refill]; exact hlayout) fun hshape => ?_
        subst hshape
        exact ⟨entry.2, rfl⟩
      rcases ih hput with ⟨hall, n', hn', hdiffers⟩ | ⟨⟨e, he, hnot⟩, hfails⟩
      · refine .inl ⟨List.forall_mem_cons.2 ⟨htakes, hall⟩, n', hn', hdiffers.formed, hdiffers.kind,
          hdiffers.info, fun q => ?_⟩
        -- Of two entries for one role the later one counts; it is in `m`.
        rw [hdiffers.content, Table.get?_ofLast_cons]
        cases (Table.ofLast m).get? q.label with
        | some ds => rfl
        | none =>
          simp only [refilledAt, Option.elim_none, Option.none_or, content_putSlot, role_refill]
          by_cases hrq : r = q
          · subst hrq
            rw [if_pos rfl, if_pos hlabel.symm, Option.elim_some, shapeAt_eq hlayout]
          · have hne : entry.1 ≠ q.label := fun heq => hrq (Role.label_injective (hlabel.trans heq))
            rw [if_neg hrq, if_neg hne, Option.elim_none]
      · exact .inr ⟨⟨e, List.mem_cons_of_mem _ he, hnot⟩, hfails⟩
    · rw [withChildren_cons, hslot]
      exact .inr ⟨⟨entry, List.mem_cons_self, hnot⟩, f, rfl, hvalue⟩

theorem exists_error_iff (h : n.Formed) :
    (∃ f, n.withChildren m = .error f) ↔ ∃ e ∈ m, ¬n.kind.Takes e := by
  rcases h.withChildren_cases m with ⟨hall, n', hn', -⟩ | ⟨hnot, f, hf, -⟩
  · rw [hn']
    exact ⟨fun ⟨_, hf⟩ => (nomatch hf), fun ⟨e, he, hnot⟩ => absurd (hall e he) hnot⟩
  · exact ⟨fun _ => hnot, fun _ => ⟨f, hf⟩⟩

theorem differs_of_ok (h : n.Formed) {n' : Node} (hn' : n.withChildren m = .ok n') :
    (∀ e ∈ m, n.kind.Takes e) ∧ n.Differs n' m := by
  rcases h.withChildren_cases m with ⟨hall, n'', hn'', hdiffers⟩ | ⟨-, f, hf, -⟩
  · rw [hn''] at hn'
    cases hn'
    exact ⟨hall, hdiffers⟩
  · rw [hf] at hn'
    cases hn'

end Formed

/-- The children that were put are read again, and the others are the former ones. -/
theorem Differs.namedChildren_eq {n' : Node} (h : n.Differs n' m) (hn : n.Formed)
    (hm : m.keys.Nodup) (htakes : ∀ e ∈ m, n.kind.Takes e)
    (hpresent : ∀ e ∈ m, ∀ d ∈ e.2, ¬d.isNull) :
    n'.namedChildren = n.namedChildren.map fun e => (e.1, (m.get? e.1.label).getD e.2) := by
  rw [h.formed.namedChildren_eq, hn.namedChildren_eq, h.kind, List.map_map]
  refine List.map_congr_left fun e he => ?_
  obtain ⟨r, shape⟩ := e
  obtain ⟨hlayout, hholds⟩ := List.mem_filter.1 he
  refine Prod.ext rfl ?_
  simp only [Function.comp_apply]
  rw [h.content, Table.get?_ofLast_of_nodup hm]
  cases hget : m.get? r.label with
  | none => rfl
  | some ds =>
    have hmem : (r.label, ds) ∈ m := Table.mem_of_get? hget
    have hroom : shape ≠ .children → ds.length ≤ 1 := by
      intro hshape
      cases shape with
      | child optional => exact (htakes _ hmem).2 r optional hlayout rfl
      | children => exact absurd rfl hshape
      | _ => cases hholds
    rw [refilledAt, Option.elim_some, shapeAt_eq hlayout, Option.getD_some]
    exact parts_refill hholds hroom (hpresent _ hmem)

/-- Putting the children that were read changes nothing. -/
theorem Formed.withChildren_namedChildren (h : n.Formed) :
    n.withChildren (n.namedChildren.map fun e => (e.1.label, e.2)) = .ok n := by
  have hentry : ∀ e ∈ n.namedChildren.map fun e => (e.1.label, e.2), ∃ r shape,
      (r, shape) ∈ n.kind.layout ∧ shape.holdsChildren ∧
      e = (r.label, (Slot.mk r (n.content r)).parts shape) := by
    intro e he
    rw [h.namedChildren_eq, List.map_map] at he
    obtain ⟨⟨r, shape⟩, hmem, rfl⟩ := List.mem_map.1 he
    obtain ⟨hlayout, hholds⟩ := List.mem_filter.1 hmem
    exact ⟨r, shape, hlayout, hholds, rfl⟩
  have htakes : ∀ e ∈ n.namedChildren.map fun e => (e.1.label, e.2), n.kind.Takes e := by
    intro e he
    obtain ⟨r, shape, hlayout, hholds, rfl⟩ := hentry e he
    refine ⟨⟨r, shape, hlayout, hholds, rfl⟩, fun q optional hq hlabel => ?_⟩
    obtain rfl := Role.label_injective hlabel
    obtain rfl : shape = .child optional := Kind.shape_eq_of_mem hlayout hq
    simp only [Slot.parts, reduceCtorEq, if_false]
    split <;> simp
  rcases h.withChildren_cases _ with ⟨-, n', hn', hdiffers⟩ | ⟨⟨e, he, hnot⟩, -⟩
  · refine hn'.trans (congrArg _ (hdiffers.formed.ext h hdiffers.kind hdiffers.info fun r => ?_))
    rw [hdiffers.content]
    cases hget : (Table.ofLast (n.namedChildren.map fun e => (e.1.label, e.2))).get? r.label with
    | none => rfl
    | some ds =>
      obtain ⟨q, shape, hlayout, -, heq⟩ :=
        hentry _ (Table.mem_of_mem_ofLast (Table.mem_of_get? hget))
      obtain ⟨hlabel, rfl⟩ := Prod.ext_iff.1 heq
      obtain rfl := Role.label_injective hlabel
      rw [refilledAt, Option.elim_some, shapeAt_eq hlayout]
      exact refill_parts fun hshape => h.sequences r (hshape ▸ hlayout)
  · exact absurd (htakes e he) hnot

/-- A node takes one change after the other if it takes both at once. -/
theorem takes_putAll_iff (hm : m.keys.Nodup) (hm₂ : m₂.keys.Nodup)
    (hroom : ∀ e ∈ m, k.HasRoom e.1 e.2) :
    (∀ e ∈ m.putAll m₂, k.Takes e) ↔ (∀ e ∈ m, k.Takes e) ∧ ∀ e ∈ m₂, k.Takes e := by
  have hmem : ∀ {e}, e ∈ m.putAll m₂ ↔ (m₂.get? e.1).or (m.get? e.1) = some e.2 := by
    intro e
    rw [← Table.get?_putAll_of_nodup hm₂, Table.get?_eq_some_iff (Table.nodup_keys_putAll hm m₂)]
  constructor
  · intro h
    refine ⟨fun e he => ?_, fun e he => ?_⟩
    · cases hget : m₂.get? e.1 with
      | none =>
        refine h e (hmem.2 ?_)
        rw [hget, Option.none_or]
        exact Table.get?_of_mem hm he
      | some ds =>
        have htakes := h (e.1, ds) (hmem.2 (by rw [hget]; rfl))
        exact ⟨htakes.1, hroom e he⟩
    · refine h e (hmem.2 ?_)
      rw [Table.get?_of_mem hm₂ he]
      rfl
  · rintro ⟨h, h₂⟩ e he
    rcases Option.or_eq_some_iff.1 (hmem.1 he) with hget | ⟨-, hget⟩
    · exact h₂ e (Table.mem_of_get? hget)
    · exact h e (Table.mem_of_get? hget)

/-- One change after the other is both at once, where the later one counts. -/
theorem Formed.withChildren_putAll (h : n.Formed) (hm : m.keys.Nodup) (hm₂ : m₂.keys.Nodup)
    (hroom : ∀ e ∈ m, n.kind.HasRoom e.1 e.2) :
    (n.withChildren m >>= fun n' => n'.withChildren m₂).toOption =
      (n.withChildren (m.putAll m₂)).toOption := by
  have hiff := takes_putAll_iff hm hm₂ hroom
  rcases h.withChildren_cases (m.putAll m₂) with ⟨hall, n₃, hn₃, hboth⟩ | ⟨hnot, f, hf, -⟩
  · obtain ⟨htakes, htakes₂⟩ := hiff.1 hall
    rcases h.withChildren_cases m with ⟨-, n₁, hn₁, hfirst⟩ | ⟨⟨e, he, hnot⟩, -⟩
    · rcases hfirst.formed.withChildren_cases m₂ with ⟨-, n₂, hn₂, hsecond⟩ | ⟨⟨e, he, hnot⟩, -⟩
      · have heq : n₂ = n₃ := by
          refine hsecond.formed.ext hboth.formed
            (hsecond.kind.trans (hfirst.kind.trans hboth.kind.symm))
            (hsecond.info.trans (hfirst.info.trans hboth.info.symm)) fun r => ?_
          rw [hsecond.content, hboth.content, Table.get?_ofLast_of_nodup hm₂,
            Table.get?_ofLast_of_nodup (Table.nodup_keys_putAll hm m₂),
            Table.get?_putAll_of_nodup hm₂]
          cases m₂.get? r.label with
          | some ds =>
            simp only [refilledAt, Option.elim_some, Option.some_or, hfirst.kind]
          | none =>
            rw [Option.none_or, refilledAt, Option.elim_none, hfirst.content,
              Table.get?_ofLast_of_nodup hm]
        rw [hn₁, hn₃, ok_bind, hn₂, heq]
      · exact absurd (hfirst.kind ▸ htakes₂ e he) hnot
    · exact absurd (htakes e he) hnot
  · rw [hf]
    rcases h.withChildren_cases m with ⟨htakes, n₁, hn₁, hfirst⟩ | ⟨-, f', hf', -⟩
    · rcases hfirst.formed.withChildren_cases m₂ with ⟨htakes₂, -⟩ | ⟨-, f₂, hf₂, -⟩
      · obtain ⟨e, he, hnot⟩ := hnot
        exact absurd (hiff.2 ⟨htakes, fun e he => hfirst.kind ▸ htakes₂ e he⟩ e he) hnot
      · rw [hn₁, ok_bind, hf₂]
        rfl
    · rw [hf']
      rfl

/-- Reading and replacing the children of a node. Children are refused, as a bad value, just if the
node has no such role for them or if there are several in the place of one. Otherwise these children
are read again in their roles, and all else is as it was. Putting the children that were read
changes nothing. Two changes one after the other are the same as both at once, where the later one
counts. -/
theorem Formed.withChildren_lens (h : n.Formed) (hm : m.keys.Nodup) (hm₂ : m₂.keys.Nodup)
    (hpresent : ∀ e ∈ m, ∀ d ∈ e.2, ¬d.isNull) :
    ((∃ f, n.withChildren m = .error f) ↔
      ∃ e ∈ m, ¬n.kind.HasChildRole e.1 ∨ ¬n.kind.HasRoom e.1 e.2) ∧
    (∀ f, n.withChildren m = .error f → f.failure.category = .value) ∧
    (∀ n', n.withChildren m = .ok n' → n'.Formed ∧ n'.kind = n.kind ∧ n'.info = n.info ∧
      n'.namedChildren = n.namedChildren.map (fun e => (e.1, (m.get? e.1.label).getD e.2)) ∧
      ∀ r, m.get? r.label = none → n'.content r = n.content r) ∧
    n.withChildren (n.namedChildren.map fun e => (e.1.label, e.2)) = .ok n ∧
    ((∀ e ∈ m, n.kind.HasRoom e.1 e.2) →
      (n.withChildren m >>= fun n' => n'.withChildren m₂).toOption =
        (n.withChildren (m.putAll m₂)).toOption) := by
  refine ⟨?_, fun f hf => ?_, fun n' hn' => ?_, h.withChildren_namedChildren,
    h.withChildren_putAll hm hm₂⟩
  · rw [h.exists_error_iff]
    simp only [Kind.Takes, not_and_or]
  · rcases h.withChildren_cases m with ⟨-, n', hn', -⟩ | ⟨-, f', hf', hvalue⟩
    · rw [hn'] at hf
      cases hf
    · rw [hf'] at hf
      cases hf
      exact hvalue
  · obtain ⟨htakes, hdiffers⟩ := h.differs_of_ok hn'
    refine ⟨hdiffers.formed, hdiffers.kind, hdiffers.info,
      hdiffers.namedChildren_eq h hm htakes hpresent, fun r hr => ?_⟩
    rw [hdiffers.content, Table.get?_ofLast_of_nodup hm, hr]
    rfl

/-- A reference to lists of values of a type. -/
def listOf (type : Text) : Node :=
  .mk .listType .none [.child .type (.mk .namedType .none [.datum .name (.text type)])]

/-- The place of a single child is emptied, and filled again. -/
theorem Formed.withChildren_lens_emptied :
    (listOf "Int").Formed ∧ (Table.keys [(("type" : Text), ([] : List Data))]).Nodup ∧
    (Table.keys [(("type" : Text), [Data.node (listOf "ID")])]).Nodup ∧
    (listOf "Int").withChildren ((listOf "Int").namedChildren.map fun e => (e.1.label, e.2)) =
      .ok (listOf "Int") ∧
    ((listOf "Int").withChildren [("type", [])] >>= fun n' =>
      n'.withChildren [("type", [.node (listOf "ID")])]).toOption =
      ((listOf "Int").withChildren
        (Table.putAll [("type", [])] [("type", [.node (listOf "ID")])])).toOption := by
  have hformed : (listOf "Int").Formed :=
    ⟨rfl, fun r hr => by simp [listOf, kind, Kind.layout] at hr⟩
  have hroom : ∀ e ∈ [(("type" : Text), ([] : List Data))], Kind.listType.HasRoom e.1 e.2 := by
    simp [Kind.HasRoom]
  have hempty : (Table.keys [(("type" : Text), ([] : List Data))]).Nodup :=
    List.pairwise_singleton _ _
  have hfull : (Table.keys [(("type" : Text), [Data.node (listOf "ID")])]).Nodup :=
    List.pairwise_singleton _ _
  have hlens := hformed.withChildren_lens hempty hfull (by simp)
  exact ⟨hformed, hempty, hfull, hlens.2.2.2.1, hlens.2.2.2.2 hroom⟩

end Node

end GraphSchema
