import GraphSchema.Proofs.Registry.WellTyped

/-!
# Extended types

Extending a definition of a type appends the members of the extension, role by role, and leaves all
else as it was. The definition of a type with all its extensions has the members of all of them.

## Main definitions

* `Registry.membersOf`: the members of a type, with those of its extensions.

## Main statements

* `Registry.extendBy_eq`: a definition with one extension.
* `Registry.extendedType?_eq`: a definition with all extensions.
-/

namespace GraphSchema

namespace Node

/-- The slots of a node that has the attributes of its kind. -/
theorem Shaped.slots_eq {n : Node} (h : n.Shaped) :
    n.slots = n.kind.layout.map fun e => .mk e.1 (n.content e.1) :=
  h.formed.slots_eq

/-- The children of a node that has the attributes of its kind. -/
theorem Shaped.namedChildren_eq {n : Node} (h : n.Shaped) :
    n.namedChildren = (n.kind.layout.filter fun e => e.2.holdsChildren).map fun e =>
      (e.1, (Slot.mk e.1 (n.content e.1)).parts e.2) :=
  h.formed.namedChildren_eq

/-- A node stays well typed if some of its attributes get other children that belong there. -/
theorem WellTyped.of_content {n n' : Node} (hn : n.WellTyped) (hkind : n'.kind = n.kind)
    (hroles : n'.slots.map Slot.role = n.slots.map Slot.role)
    (h : ∀ r, n'.content r = n.content r ∨ (r, .children) ∈ n.kind.layout ∧
      ∃ cs : List Node, n'.content r = .nodeList cs ∧
        ∀ c ∈ cs, n.kind.admits r c.kind ∧ c.WellTyped) : n'.WellTyped := by
  refine .intro ⟨by rw [hroles, hkind]; exact hn.shaped.roles, fun r s hr => ?_⟩ fun r c hc => ?_
  · rw [hkind] at hr ⊢
    rcases h r with hsame | ⟨hlayout, cs, hcs, hc⟩
    · rw [hsame]
      exact hn.shaped.fits r s hr
    · obtain rfl := Kind.shape_eq_of_mem hlayout hr
      exact ⟨cs, hcs, fun c hmem => (hc c hmem).1⟩
  · rcases h r with hsame | ⟨-, cs, hcs, hwell⟩
    · rw [childrenAt, hsame] at hc
      exact hn.of_mem hc
    · rw [childrenAt, hcs, Data.nodes_nodeList] at hc
      exact (hwell c hc).2

end Node

namespace Registry

open Node

theorem nodup_members (k : TypeKind) : (Kind.members k).Nodup := by
  cases k <;> decide

/-- The children of an extension of a type. -/
theorem namedChildren_typeExtension {k : TypeKind} {e : Node} (he : e.WellTyped)
    (hk : e.kind = .typeExtension k) :
    e.namedChildren = (Kind.members k).map fun r => (r, (e.childrenAt r).map Data.node) := by
  have hlayout : (e.kind.layout.filter fun e => e.2.holdsChildren) =
      (Kind.members k).map fun r => (r, Shape.children) := by
    rw [hk]
    cases k <;> rfl
  rw [he.shaped.namedChildren_eq, hlayout, List.map_map]
  refine List.map_congr_left fun r hr => ?_
  have hitems := he.items (hk ▸ Kind.mem_layout_typeExtension hr)
  simp only [Function.comp_apply, Slot.parts, if_true, Slot.content, hitems]

/-- The builder of a definition after the members of an extension were appended. -/
theorem foldlM_append_members {k : TypeKind} {n e : Node} (hn : n.WellTyped)
    (hnk : n.kind = .typeDefinition k) (he : e.WellTyped) (hek : e.kind = .typeExtension k) :
    ∃ b, e.namedChildren.foldlM (fun b entry => b.append entry.1 entry.2) n.toBuilder = .ok b ∧
      n.toBuilder.Agrees b ∧
      (∀ r ∈ Kind.members k, b.content r = .nodeList (n.childrenAt r ++ e.childrenAt r)) ∧
      ∀ r ∉ Kind.members k, b.content r = n.content r := by
  have hlayout : ∀ r ∈ Kind.members k, (r, Shape.children) ∈ n.kind.layout :=
    fun r hr => hnk ▸ Kind.mem_layout_typeDefinition hr
  have hmem : ∀ r ∈ Kind.members k,
      n.toBuilder.content r = .list ((n.childrenAt r).map Data.node) :=
    fun r hr => (hn.children (hlayout r hr)).1
  have hkeys : ((Kind.members k).map fun r => (r, (e.childrenAt r).map Data.node)).map Prod.fst =
      Kind.members k := by
    rw [List.map_map]
    exact List.map_id _
  rw [namedChildren_typeExtension he hek]
  obtain ⟨b, hb, hagrees, hother, hadded⟩ := Builder.foldlM_append (b := n.toBuilder)
    (hkeys.symm ▸ nodup_members k)
    (by
      intro entry hentry
      obtain ⟨r, hr, rfl⟩ := List.mem_map.1 hentry
      exact hn.shaped.mem_roles (hlayout r hr))
    (by
      intro entry hentry
      obtain ⟨r, hr, rfl⟩ := List.mem_map.1 hentry
      exact ⟨_, hmem r hr⟩)
  rw [hkeys] at hother
  refine ⟨b, hb, hagrees, fun r hr => ?_, hother⟩
  rw [hadded _ (List.mem_map.2 ⟨r, hr, rfl⟩) _ (hmem r hr), Data.nodeList, List.map_append]

/-- A definition with one extension. -/
theorem extendBy_eq {k : TypeKind} {n e : Node} (hn : n.WellTyped)
    (hnk : n.kind = .typeDefinition k) (he : e.WellTyped) (hek : e.kind = .typeExtension k) :
    ∃ n', extendBy n e = .ok n' ∧ n'.kind = n.kind ∧ n'.info = n.info ∧ n'.WellTyped ∧
      (∀ r ∈ Kind.members k, n'.childrenAt r = n.childrenAt r ++ e.childrenAt r) ∧
      ∀ r ∉ Kind.members k, n'.content r = n.content r := by
  obtain ⟨b, hb, hagrees, hmembers, hother⟩ := foldlM_append_members hn hnk he hek
  have hkind : b.kind = n.kind := hagrees.kind
  have hlists : ∀ r, (r, .children) ∈ b.kind.layout → ∃ ds, b.content r = .list ds := by
    intro r hr
    by_cases hrk : r ∈ Kind.members k
    · exact ⟨_, hmembers r hrk⟩
    · rw [hother r hrk]
      exact ⟨_, (hn.children (hkind ▸ hr)).1⟩
  have hbuild := Builder.build_eq (by rw [hagrees.roles, hkind]; exact hn.shaped.roles) hlists
  have hinfo : { b.info with data := b.info.data.putAll b.added } = n.info := by
    rw [hagrees.info, hagrees.added]
    rfl
  rw [hinfo, hkind] at hbuild
  -- Extensions admit the same members as definitions, so what is appended belongs there.
  have hchild : ∀ r ∈ Kind.members k, ∀ c ∈ n.childrenAt r ++ e.childrenAt r,
      n.kind.admits r c.kind ∧ c.WellTyped := by
    intro r hr c hc
    rcases List.mem_append.1 hc with hc | hc
    · exact (hn.children (hnk ▸ Kind.mem_layout_typeDefinition hr)).2 c hc
    · have h := (he.children (hek ▸ Kind.mem_layout_typeExtension hr)).2 c hc
      rw [hek, Kind.admits_typeExtension hr, ← hnk] at h
      exact h
  have hwell : (Node.mk n.kind n.info b.slots).WellTyped := by
    refine hn.of_content rfl hagrees.roles fun r => ?_
    by_cases hr : r ∈ Kind.members k
    · exact .inr ⟨hnk ▸ Kind.mem_layout_typeDefinition hr, _, hmembers r hr, hchild r hr⟩
    · exact .inl (hother r hr)
  refine ⟨.mk n.kind n.info b.slots, ?_, rfl, rfl, hwell, fun r hr => ?_, hother⟩
  · rw [extendBy, transform, hb]
    exact hbuild
  · rw [childrenAt, show (Node.mk n.kind n.info b.slots).content r = _ from hmembers r hr,
      Data.nodes_nodeList]

/-- A definition with extensions in order. -/
theorem foldlM_extendBy {k : TypeKind} {n : Node} {es : List Node} (hn : n.WellTyped)
    (hnk : n.kind = .typeDefinition k)
    (hes : ∀ e ∈ es, e.WellTyped ∧ e.kind = .typeExtension k) :
    ∃ n', es.foldlM extendBy n = .ok n' ∧ n'.kind = n.kind ∧ n'.info = n.info ∧ n'.WellTyped ∧
      (∀ r ∈ Kind.members k, n'.childrenAt r = (n :: es).flatMap fun e => e.childrenAt r) ∧
      ∀ r ∉ Kind.members k, n'.content r = n.content r := by
  induction es generalizing n with
  | nil => exact ⟨n, rfl, rfl, rfl, hn, by simp, fun _ _ => rfl⟩
  | cons e es ih =>
    obtain ⟨he, hek⟩ := hes e List.mem_cons_self
    obtain ⟨n₁, h₁, hkind₁, hinfo₁, hn₁, hmem₁, hother₁⟩ := extendBy_eq hn hnk he hek
    obtain ⟨n', h', hkind, hinfo, hn', hmem, hother⟩ := ih hn₁ (hkind₁.trans hnk)
      fun e he => hes e (List.mem_cons_of_mem _ he)
    refine ⟨n', ?_, hkind.trans hkind₁, hinfo.trans hinfo₁, hn', ?_, ?_⟩
    · rw [List.foldlM_cons, h₁]
      exact h'
    · intro r hr
      rw [hmem r hr, List.flatMap_cons, hmem₁ r hr]
      simp
    · intro r hr
      rw [hother r hr, hother₁ r hr]

/-! ## Registries -/

/-- The extensions of types of a kind that have a given name, in order. -/
def extensionsAt (r : Registry) (k : TypeKind) (name : Atom) : List Node :=
  ((r.extensions k).get? name).getD []

theorem WellTyped.extensionsAt {r : Registry} (h : r.WellTyped) {k : TypeKind} {name : Atom}
    {n : Node} (hn : n ∈ r.extensionsAt k name) : Entry name n (.typeExtension k) := by
  unfold Registry.extensionsAt at hn
  cases hget : (r.extensions k).get? name with
  | none => rw [hget] at hn; cases hn
  | some ns =>
    rw [hget] at hn
    exact h.extensions k _ (Table.mem_of_get? hget) n hn

/-- The members of a type of a kind in a role: those of its definition, and those of its
extensions. -/
def membersOf (r : Registry) (k : TypeKind) (name : Atom) (base : Node) (role : Role) : List Node :=
  (base :: r.extensionsAt k name).flatMap fun n => n.childrenAt role

theorem extendedType?_of_none {r : Registry} {name : Atom} (h : r.type? name = none) :
    r.extendedType? name = .ok none := by
  rw [extendedType?, h]

/-- The definition of a type has the members of all its extensions. -/
theorem WellTyped.extendedType?_eq {r : Registry} (h : r.WellTyped) {k : TypeKind} {name : Atom}
    {base : Node} (hbase : r.type? name = some base) (hk : base.kind = .typeDefinition k) :
    ∃ n, r.extendedType? name = .ok (some n) ∧ n.kind = base.kind ∧ n.info = base.info ∧
      n.WellTyped ∧ (∀ role ∈ Kind.members k, n.childrenAt role = r.membersOf k name base role) ∧
      ∀ role ∉ Kind.members k, n.content role = base.content role := by
  obtain ⟨l, hl⟩ := h.type? hbase
  have hexts : ∀ e ∈ r.extensionsAt k name, e.WellTyped ∧ e.kind = .typeExtension k :=
    fun e he => ⟨(h.extensionsAt he).wellTyped, (h.extensionsAt he).kind⟩
  obtain ⟨n, hn, hkind, hinfo, hwell, hmem, hother⟩ := foldlM_extendBy hl.wellTyped hk hexts
  refine ⟨n, ?_, hkind, hinfo, hwell, hmem, hother⟩
  have hexts : r.extensionsOf name base = .ok (r.extensionsAt k name) := by
    rw [extensionsOf, hk]
    rfl
  simp only [extendedType?, hbase, hexts, ok_bind, hn]
  rfl

end Registry

end GraphSchema
