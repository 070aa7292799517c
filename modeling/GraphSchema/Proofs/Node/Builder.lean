import GraphSchema.Node.Builder
import GraphSchema.Proofs.Node.WellTyped

/-!
# Builders of nodes

What a builder knows is seen through the data under each role. Appending changes the data under one
role, and a builder that knows the attributes of its kind builds a node with these attributes.

## Main definitions

* `Kind.held`, `Kind.sequenced`: data and slots as nodes of a kind have them.
* `Node.Builder.content`: what a builder knows of an attribute.

## Main statements

* `Node.Builder.foldlM_append`: appending to several attributes.
* `Node.Builder.build_eq_sequenced`: building a node.
-/

namespace GraphSchema

theorem Kind.nodup_roles (k : Kind) : (k.layout.map Prod.fst).Nodup := by
  cases k with
  | bare g => exact List.nodup_nil
  | typeDefinition k => cases k <;> decide
  | typeExtension k => cases k <;> decide
  | _ => decide

/-- A step that succeeds. -/
theorem ok_bind {α β ε : Type} (a : α) (f : α → Except ε β) : (Except.ok a >>= f) = f a := rfl

theorem exists_of_isOk {α ε : Type} {x : Except ε α} (h : x.isOk = true) : ∃ a, x = .ok a := by
  cases x with
  | ok a => exact ⟨a, rfl⟩
  | error e => cases h

/-- Steps that all succeed. -/
theorem mapM_eq_ok {α β ε : Type} {f : α → Except ε β} {g : α → β} {xs : List α}
    (h : ∀ x ∈ xs, f x = .ok (g x)) : xs.mapM f = .ok (xs.map g) := by
  induction xs with
  | nil => rfl
  | cons x xs ih =>
    rw [List.mapM_cons, h x List.mem_cons_self, ih fun y hy => h y (List.mem_cons_of_mem _ hy)]
    rfl

/-- An attribute has one shape. -/
theorem Kind.shape?_eq {k : Kind} {r : Role} {s : Shape} (h : (r, s) ∈ k.layout) :
    k.shape? r = some s := by
  have hnodup := k.nodup_roles
  unfold shape?
  generalize k.layout = l at h hnodup
  induction l with
  | nil => cases h
  | cons e l ih =>
    rw [List.map_cons, List.nodup_cons] at hnodup
    cases h with
    | head => simp
    | tail _ h =>
      have hne : e.1 ≠ r := by
        intro heq
        subst heq
        exact hnodup.1 (List.mem_map.2 ⟨_, h, rfl⟩)
      rw [List.find?_cons_of_neg (by simpa using hne)]
      exact ih h hnodup.2

/-- The shape of an attribute is the one in the layout of the kind. -/
theorem Kind.shape?_eq_some_iff {k : Kind} {r : Role} {s : Shape} :
    k.shape? r = some s ↔ (r, s) ∈ k.layout := by
  refine ⟨fun h => ?_, shape?_eq⟩
  obtain ⟨e, hfind, rfl⟩ := Option.map_eq_some_iff.1 h
  obtain rfl : e.1 = r := by simpa using List.find?_some hfind
  exact List.mem_of_find?_eq_some hfind

/-- An attribute stands once in the layout of a kind. -/
theorem Kind.shape_eq_of_mem {k : Kind} {r : Role} {s s' : Shape} (h : (r, s) ∈ k.layout)
    (h' : (r, s') ∈ k.layout) : s = s' :=
  Option.some.inj ((shape?_eq h).symm.trans (shape?_eq h'))

theorem Role.ofLabel?_label (r : Role) : ofLabel? r.label = some r := by
  cases r <;> decide

theorem Role.label_injective : Function.Injective label := by
  intro r q h
  have hr := ofLabel?_label r
  rw [h, ofLabel?_label q] at hr
  exact (Option.some.inj hr).symm

/-- Data as an attribute of nodes of the kind holds them: several children are a list. -/
def Kind.held (k : Kind) (r : Role) (d : Data) : Data :=
  if k.shape? r = some .children then .list (d.sequence?.getD []) else d

/-- A slot as nodes of the kind have it. -/
def Kind.sequenced (k : Kind) (s : Slot) : Slot := .mk s.role (k.held s.role s.content)

theorem Kind.held_eq {k : Kind} {r : Role} {shape : Shape} (h : (r, shape) ∈ k.layout) (d : Data) :
    k.held r d = if shape = .children then .list (d.sequence?.getD []) else d := by
  simp only [held, shape?_eq h, Option.some.injEq]

namespace Node

/-! ## Slots by role -/

theorem map_role_putSlot {s : Slot} {slots : List Slot} (h : s.role ∈ slots.map Slot.role) :
    (putSlot s slots).map Slot.role = slots.map Slot.role := by
  induction slots with
  | nil => cases h
  | cons t slots ih =>
    by_cases ht : t.role = s.role
    · simp [putSlot, ht]
    · have hs : s.role ∈ slots.map Slot.role := by
        rw [List.map_cons, List.mem_cons] at h
        exact h.resolve_left (Ne.symm ht)
      rw [putSlot, if_neg ht, List.map_cons, ih hs, List.map_cons]

theorem find?_putSlot (s : Slot) (slots : List Slot) (r : Role) :
    (putSlot s slots).find? (fun t => t.role = r) =
      if s.role = r then some s else slots.find? fun t => t.role = r := by
  induction slots with
  | nil => by_cases h : s.role = r <;> simp [putSlot, h]
  | cons t slots ih =>
    by_cases ht : t.role = s.role
    · by_cases h : s.role = r <;> simp [putSlot, ht, h]
    · by_cases htr : t.role = r
      · have h : s.role ≠ r := fun h => ht (htr.trans h.symm)
        rw [putSlot, if_neg ht, if_neg h]
        simp [htr]
      · rw [putSlot, if_neg ht, List.find?_cons_of_neg (by simpa using htr), ih,
          List.find?_cons_of_neg (by simpa using htr)]

/-- Slots whose roles are known and differ are known by what they hold. -/
theorem slots_eq_map {slots : List Slot} {l : List (Role × Shape)}
    (h : slots.map Slot.role = l.map Prod.fst) (hl : (l.map Prod.fst).Nodup) :
    slots = l.map fun e =>
      .mk e.1 (((slots.find? fun t => t.role = e.1).map Slot.content).getD .null) := by
  induction l generalizing slots with
  | nil => simpa using h
  | cons e l ih =>
    obtain ⟨t, slots, rfl, ht, h⟩ := List.map_eq_cons_iff.1 h
    rw [List.map_cons, List.nodup_cons] at hl
    have htail : ∀ e' ∈ l, t.role ≠ e'.1 := by
      intro e' he' h
      exact hl.1 (List.mem_map.2 ⟨e', he', by rw [← h, ht]⟩)
    have hrest : slots = l.map fun e => Slot.mk e.1
        ((((t :: slots).find? fun s => s.role = e.1).map Slot.content).getD .null) := by
      refine (ih h hl.2).trans (List.map_congr_left fun e' he' => ?_)
      rw [List.find?_cons_of_neg (by simpa using htail e' he')]
    rw [List.map_cons, ← hrest, List.find?_cons_of_pos (by simpa using ht), ← ht]
    cases t
    rfl

/-- A slot for other children under the name of a role. -/
theorem slotFor_label {k : Kind} {r : Role} (hchild : k.isChildRole r) (ds : List Data) :
    slotFor k r.label ds =
      if shapeAt k r ≠ .children ∧ 1 < ds.length then .error (.singleChild k r.label ds.length)
      else .ok (refill (shapeAt k r) r ds) := by
  rw [slotFor, Role.ofLabel?_label, Option.filter_some, if_pos hchild]

namespace Builder

/-- What a builder knows of an attribute. -/
def content (b : Builder) (r : Role) : Data :=
  ((b.slots.find? fun s => s.role = r).map Slot.content).getD .null

/-- What a builder knows of an attribute after a slot was put. -/
theorem content_putSlot (b : Builder) (s : Slot) (r : Role) :
    { b with slots := putSlot s b.slots }.content r =
      if s.role = r then s.content else b.content r := by
  rw [content, find?_putSlot]
  split <;> rfl

/-- Appending to what is a sequence. -/
theorem append_eq {b : Builder} {r : Role} {all : List Data}
    (h : (b.content r).sequence? = some all) (ds : List Data) :
    b.append r ds = .ok { b with slots := putSlot (.mk r (.list (all ++ ds))) b.slots } := by
  rw [content] at h
  simp only [append, h]

/-- A builder that differs from another one in what it knows of attributes only. -/
structure Agrees (b b' : Builder) : Prop where
  kind : b'.kind = b.kind
  info : b'.info = b.info
  added : b'.added = b.added
  roles : b'.slots.map Slot.role = b.slots.map Slot.role

/-- Appending to several attributes. -/
theorem foldlM_append {b : Builder} {entries : List (Role × List Data)}
    (hnodup : (entries.map Prod.fst).Nodup)
    (hroles : ∀ e ∈ entries, e.1 ∈ b.slots.map Slot.role)
    (hlist : ∀ e ∈ entries, ∃ all, b.content e.1 = .list all) :
    ∃ b', entries.foldlM (fun b e => b.append e.1 e.2) b = .ok b' ∧ Agrees b b' ∧
      (∀ r, r ∉ entries.map Prod.fst → b'.content r = b.content r) ∧
      ∀ e ∈ entries, ∀ all, b.content e.1 = .list all → b'.content e.1 = .list (all ++ e.2) := by
  induction entries generalizing b with
  | nil => exact ⟨b, rfl, ⟨rfl, rfl, rfl, rfl⟩, fun _ _ => rfl, by simp⟩
  | cons e entries ih =>
    rw [List.map_cons, List.nodup_cons] at hnodup
    obtain ⟨all, hall⟩ := hlist e List.mem_cons_self
    have happend := append_eq ((congrArg Data.sequence? hall).trans rfl) e.2
    generalize hb₁ : { b with slots := putSlot (.mk e.1 (.list (all ++ e.2))) b.slots } = b₁
      at happend
    have hroles₁ : b₁.slots.map Slot.role = b.slots.map Slot.role := by
      rw [← hb₁]
      exact map_role_putSlot (hroles e List.mem_cons_self)
    have hcontent : ∀ r, b₁.content r = if e.1 = r then .list (all ++ e.2) else b.content r := by
      intro r
      rw [← hb₁]
      exact content_putSlot b _ r
    -- No later entry is for the same attribute, so what was appended stays as it is.
    have hne : ∀ e' ∈ entries, e.1 ≠ e'.1 := by
      intro e' he' h
      exact hnodup.1 (List.mem_map.2 ⟨e', he', h.symm⟩)
    obtain ⟨b', hb', hagrees, hother, hmem⟩ := ih (b := b₁) hnodup.2
      (fun e' he' => hroles₁ ▸ hroles e' (List.mem_cons_of_mem _ he'))
      (fun e' he' => by
        rw [hcontent, if_neg (hne e' he')]
        exact hlist e' (List.mem_cons_of_mem _ he'))
    refine ⟨b', ?_, ?_, ?_, ?_⟩
    · rw [List.foldlM_cons, happend]
      exact hb'
    · subst hb₁
      exact ⟨hagrees.kind, hagrees.info, hagrees.added, hagrees.roles.trans hroles₁⟩
    · intro r hr
      rw [List.map_cons, List.mem_cons, not_or] at hr
      rw [hother r hr.2, hcontent, if_neg (Ne.symm hr.1)]
    · intro e' he' all' hall'
      cases he' with
      | head =>
        rw [hother _ hnodup.1, hcontent, if_pos rfl]
        rw [hall] at hall'
        cases hall'
        rfl
      | tail _ he' =>
        refine hmem e' he' all' ?_
        rw [hcontent, if_neg (hne e' he')]
        exact hall'

/-- A builder that knows just the attributes of its kind builds a node that has them, with lists
where several children were given. -/
theorem build_eq_sequenced {b : Builder}
    (hroles : b.slots.map Slot.role = b.kind.layout.map Prod.fst)
    (hseq : ∀ r, (r, .children) ∈ b.kind.layout → (b.content r).sequence?.isSome) :
    b.build = .ok (.mk b.kind { b.info with data := b.info.data.putAll b.added }
      (b.slots.map b.kind.sequenced)) := by
  have hany : (b.slots.any fun s => !b.kind.has s.role) = false := by
    rw [List.any_eq_false]
    intro s hs
    have hmem : s.role ∈ b.kind.layout.map Prod.fst := hroles ▸ List.mem_map.2 ⟨s, hs, rfl⟩
    obtain ⟨⟨r, shape⟩, he, hr⟩ := List.mem_map.1 hmem
    rw [Kind.has, ← hr, Kind.shape?_eq he]
    simp
  have hslot : ∀ e ∈ b.kind.layout,
      (do return Slot.mk e.1 (← settle e.2 ((b.slots.find? fun s => s.role = e.1).map Slot.content))
        : Except Fault Slot) = .ok (b.kind.sequenced (.mk e.1 (b.content e.1))) := by
    rintro ⟨r, shape⟩ he
    have hmem : r ∈ b.slots.map Slot.role := hroles ▸ List.mem_map.2 ⟨_, he, rfl⟩
    obtain ⟨s, hs⟩ : ∃ s, b.slots.find? (fun s => s.role = r) = some s := by
      obtain ⟨s, hs, rfl⟩ := List.mem_map.1 hmem
      exact Option.isSome_iff_exists.1 (List.find?_isSome.2 ⟨s, hs, by simp⟩)
    have hcontent : b.content r = s.content := by rw [content, hs]; rfl
    have hsettle : settle shape (some s.content) =
        .ok (if shape = .children then .list (s.content.sequence?.getD []) else s.content) := by
      cases shape with
      | children =>
        obtain ⟨ds, hds⟩ := Option.isSome_iff_exists.1 (hseq r he)
        rw [hcontent] at hds
        rw [settle, Option.getD_some, hds]
        rfl
      | _ => rfl
    rw [hs, hcontent]
    change (do return Slot.mk r (← settle shape (some s.content)) : Except Fault Slot) = _
    rw [hsettle, ← Kind.held_eq he]
    rfl
  have hslots : b.slots.map b.kind.sequenced =
      b.kind.layout.map fun e => b.kind.sequenced (.mk e.1 (b.content e.1)) := by
    rw [slots_eq_map hroles b.kind.nodup_roles, List.map_map]
    rfl
  unfold build
  rw [hany, mapM_eq_ok hslot, ← hslots]
  rfl

/-- If there are lists already, the node has the attributes as they are. -/
theorem build_eq {b : Builder} (hroles : b.slots.map Slot.role = b.kind.layout.map Prod.fst)
    (hlist : ∀ r, (r, .children) ∈ b.kind.layout → ∃ ds, b.content r = .list ds) :
    b.build = .ok (.mk b.kind { b.info with data := b.info.data.putAll b.added } b.slots) := by
  have hslots : b.slots.map b.kind.sequenced = b.slots := by
    rw [slots_eq_map hroles b.kind.nodup_roles, List.map_map]
    refine List.map_congr_left fun e he => ?_
    obtain ⟨r, shape⟩ := e
    refine congrArg (Slot.mk r) ((Kind.held_eq he (b.content r)).trans ?_)
    split
    · subst shape
      obtain ⟨ds, hds⟩ := hlist r he
      rw [hds]
      exact hds.symm
    · rfl
  rw [build_eq_sequenced hroles, hslots]
  intro r hr
  obtain ⟨ds, hds⟩ := hlist r hr
  rw [hds]
  rfl

end Builder

end Node

end GraphSchema
