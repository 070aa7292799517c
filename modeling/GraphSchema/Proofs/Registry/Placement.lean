import GraphSchema.Proofs.Registry.Lookup

/-!
# The place of declarations

Declarations that do not repeat each other can be moved past declarations of other sorts: the
registry that they make up stays the same, but for the order of all types together, in which types
of one kind keep theirs.

## Main definitions

* `Registry.Rearranges`: declarations in another order, but of each kind in the same one.
* `Registry.Agrees`: registries that cannot be told apart by looking up types kind by kind.

## Main statements

* `Registry.Rearranges.agrees`: the registries of declarations in another order.
-/

namespace GraphSchema

namespace Registry

/-- Declarations in another order, in which those of each kind come in the same order as before. -/
structure Rearranges (ms ns : List Node) : Prop where
  perm : ms.Perm ns
  filter : ∀ k ≠ .schemaDefinition,
    (ms.filter fun n => n.kind = k) = ns.filter fun n => n.kind = k

/-- Registries that differ at most in how types of different kinds, and all declarations together,
are ordered. -/
structure Agrees (r q : Registry) : Prop where
  type? : ∀ name, r.type? name = q.type? name
  typesOf : ∀ k, r.typesOf (.typeDefinition k) = q.typesOf (.typeDefinition k)
  scalars : r.scalars = q.scalars
  directives : r.directives = q.directives
  extensions : r.extensions = q.extensions
  schema : r.schema = q.schema
  schemaExtensions : r.schemaExtensions = q.schemaExtensions

variable {ns ms : List Node} {n m : Node} {r q : Registry} {key : Key} {name : Atom}

theorem Compatible.symm (h : Compatible n m) : Compatible m n :=
  fun hn heq => h (heq ▸ hn) heq.symm

/-! ## Declarations in another order -/

/-- Two neighbours of different kinds may change places. -/
theorem rearranges_swap (before after : List Node) (h : n.kind ≠ m.kind) :
    Rearranges (before ++ m :: n :: after) (before ++ n :: m :: after) := by
  refine ⟨(List.Perm.swap n m after).append_left before, fun k _ => ?_⟩
  rw [List.filter_append, List.filter_append]
  congr 1
  by_cases hm : m.kind = k
  · have hn : n.kind ≠ k := fun hn => h (hn.trans hm.symm)
    simp [hm, hn]
  · simp [List.filter_cons, hm]

namespace Rearranges

variable (h : Rearranges ms ns)

include h

theorem isItem (hns : ∀ n ∈ ns, IsItem n) : ∀ m ∈ ms, IsItem m :=
  fun m hm => hns m (h.perm.mem_iff.1 hm)

theorem pairwise (hpairwise : ns.Pairwise Compatible) : ms.Pairwise Compatible :=
  (h.perm.pairwise_iff Compatible.symm).2 hpairwise

theorem first?_eq (hpairwise : ns.Pairwise Compatible) (key : Key) :
    first? ms key = first? ns key := by
  ext n
  rw [first?_eq_some_iff (h.pairwise hpairwise), first?_eq_some_iff hpairwise, h.perm.mem_iff]

theorem names_eq {k : Kind} (hk : k ≠ .schemaDefinition) : names (· = k) ms = names (· = k) ns := by
  rw [names, names, h.filter k hk]

theorem mem_names_iff (p : Kind → Bool) : name ∈ names p ms ↔ name ∈ names p ns := by
  simp only [mem_names, h.perm.mem_iff]

theorem extensionsIn_eq (k : TypeKind) (name : Atom) :
    extensionsIn ms k name = extensionsIn ns k name := by
  have hsplit : ∀ ns, extensionsIn ns k name =
      (ns.filter fun n => n.kind = .typeExtension k).filter
        fun n => n.key.toOption = some name := by
    intro ns
    rw [extensionsIn, List.filter_filter]
    exact List.filter_congr fun n _ => by simp [and_comm]
  rw [hsplit, hsplit, h.filter _ (by simp)]

theorem composites_eq (k : TypeKind) :
    (ms.filter fun n => n.kind.isComposite && n.kind.isA (.typeDefinition k)) =
      ns.filter fun n => n.kind.isComposite && n.kind.isA (.typeDefinition k) := by
  have hsplit : ∀ ns : List Node,
      (ns.filter fun n => n.kind.isComposite && n.kind.isA (.typeDefinition k)) =
        (ns.filter fun n => n.kind = .typeDefinition k).filter fun n => n.kind.isComposite := by
    intro ns
    rw [List.filter_filter]
    exact List.filter_congr fun n _ => by simp [Kind.isA]
  rw [hsplit, hsplit, h.filter _ (by simp)]

end Rearranges

/-! ## Registries -/

/-- The registries of declarations that do not repeat each other, and of the same ones in another
order. -/
theorem Rearranges.agrees (h : Rearranges ms ns) (hns : ∀ n ∈ ns, IsItem n)
    (hpairwise : ns.Pairwise Compatible) : Agrees (empty.addAll ms).1 (empty.addAll ns).1 := by
  have hms := h.isItem hns
  have hpairwise' := h.pairwise hpairwise
  have hr := keeps_addAll hms
  have hq := keeps_addAll hns
  have hlr := lists_addAll hms hpairwise'
  have hlq := lists_addAll hns hpairwise
  have hfirst := h.first?_eq hpairwise
  refine ⟨fun name => ?_, fun k => ?_, ?_, ?_, funext fun k => ?_, ?_, ?_⟩
  · rw [hr.type?, hq.type?, hfirst]
  · rw [(hr.looksUp hms hpairwise' hlr).typesOf, (hq.looksUp hns hpairwise hlq).typesOf,
      h.composites_eq]
  · refine Table.eq_of_keys ?_ (hlr.nodup_scalars hpairwise') fun name => ?_
    · rw [hlr.scalars, hlq.scalars, h.names_eq (by simp)]
      simp only [h.mem_names_iff]
    · rw [hr.scalars, hq.scalars, hfirst]
  · refine Table.eq_of_keys ?_ (hlr.nodup_directives hpairwise') fun name => ?_
    · rw [hlr.directives, hlq.directives, h.names_eq (by simp)]
    · rw [hr.directives, hq.directives, hfirst]
  · refine Table.eq_of_keys ?_ (hlr.nodup_extensions k) fun name => ?_
    · rw [hlr.extensions, hlq.extensions, h.names_eq (by simp)]
    · rw [hr.extensions, hq.extensions, h.extensionsIn_eq]
  · rw [hr.schema, hq.schema, hfirst]
  · rw [hr.schemaExtensions, hq.schemaExtensions, h.filter _ (by simp)]

end Registry

end GraphSchema
