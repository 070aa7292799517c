import GraphSchema.Proofs.Parser.Twin

/-!
# Where nodes come from

The nodes that a rule gives in two documents with tokens that match are alike: they are the same
apart from their places, which match. Of each literal and of each reference to a type below them it
is known by which rule it was read from which tokens.

## Main definitions

* `Parse.Made`: a result that a rule has read from some tokens.
* `Node.Traced`: a node whose literals and references to types were read by known rules.
* `Twin.Alike`: nodes of both documents that are alike.
* `Twin.Built`, `Twin.Paired`: the same for a node that a rule builds, and for its slots.

## Main statements

* `Parse.TracksWhere.made`: the result of a rule with what it was read from.
* `Parse.tracks_node`: the node that a rule builds.
-/

namespace GraphSchema

namespace Parse

/-- What stands in front of the mark of a reference to a type that starts with a given token. -/
def unmarked (item : Parse Node) (start : Token) : Parse Node := do
  if ← skip .bracketOpen then do
    let inner ← item
    let _ ← expect .bracketClose
    node start .listType [.child .type inner]
  else namedType

/-- A reference to a type is what stands in front of its mark, with the mark if there is one. -/
theorem typeOf_eq (item : Parse Node) :
    typeOf item = peek >>= fun start => unmarked item start >>= fun type =>
      skip .exclamationMark >>= fun b =>
        if b then node start .nonNullType [.child .type type] else pure type := by
  simp only [typeOf, unmarked, bind_assoc]
  congr
  funext start
  congr
  funext b
  cases b <;> simp only [bind_assoc, if_true, if_false, Bool.false_eq_true]

/-- Of the tokens `all` of a document the rule has read the result from `us`, in front of `rest`. -/
structure Made {α : Type} (d : Parser.Document) (all us rest : List Token) (r : Parse α) (a : α) :
    Prop where
  suffix : us ++ rest <:+ all
  read : ∃ p q, p.HoldsUntil none (us ++ rest) ∧ r d p = .ok a q ∧ q.HoldsUntil none rest

end Parse

namespace Node

open Parse

/-- The literal was read from `us`, as a literal or as a quoted literal in front of something. -/
inductive LiteralFrom (d : Parser.Document) (all us rest : List Token) (n : Node) : Prop
  | within {k : Nat} (le : k ≤ d.budget) (made : Made d all us rest (valueWithin k) n)
  | quoted {t : Token} (first : us.head? = some t) (kind : t.kind.isString)
      (made : Made d all us rest stringLiteral n)

/-- The reference to a type was read from `us`, with the mark that may follow, or without it. -/
inductive ReferenceFrom (d : Parser.Document) (all us rest : List Token) (n : Node) : Prop
  | within {k : Nat} (le : k ≤ d.budget) (made : Made d all us rest (typeWithin k) n)
  | unmarked {t : Token} {k : Nat} (le : k ≤ d.budget) (first : us.head? = some t)
      (made : Made d all us rest (unmarked (typeWithin k) t) n)
  | named (made : Made d all us rest namedType n)

/-- The literals and references to types that the node is made of, itself included, were read from
parts of the tokens. -/
inductive Traced (d : Parser.Document) (all : List Token) : Node → Prop
  | intro {n : Node} (literal : n.kind.isValue → ∃ us rest, n.LiteralFrom d all us rest)
      (reference : n.kind.isType → ∃ us rest, n.ReferenceFrom d all us rest)
      (held : ∀ c ∈ n.held, Traced d all c) : Traced d all n

theorem Traced.of_mem_held {d : Parser.Document} {all : List Token} {n c : Node}
    (h : n.Traced d all) (hc : c ∈ n.held) : c.Traced d all := by
  cases h with
  | intro _ _ held => exact held c hc

end Node

namespace Twin

variable {T : Twin} {n n' : Node} {p : Kind → Prop}

/-- The two nodes are the same, with places that match, and it is known where they come from. -/
structure Alike (T : Twin) (n n' : Node) : Prop where
  relabel : n.relabel T.view = n'.relabel T.view'
  traced : n.Traced T.first T.tokens

/-- The two nodes are the same, with places that match, and it is known where the nodes that the
first one holds come from. -/
structure Built (T : Twin) (p : Kind → Prop) (n n' : Node) : Prop where
  kind : p n.kind
  relabel : n.relabel T.view = n'.relabel T.view'
  held : ∀ c ∈ n.held, c.Traced T.first T.tokens

/-- The two slots hold nodes that are alike, and are the same apart from them. -/
structure Paired (T : Twin) (s s' : Slot) : Prop where
  relabel : s.relabel T.view = s'.relabel T.view'
  nodes : List.Forall₂ T.Alike s.content.nodes s'.content.nodes

/-- Not a literal. -/
def NotLiteral (k : Kind) : Prop := k.isValue = false

/-- Not a reference to a type. -/
def NotReference (k : Kind) : Prop := k.isType = false

/-- Neither a literal nor a reference to a type. -/
def Other (k : Kind) : Prop := NotLiteral k ∧ NotReference k

theorem Built.alike (h : T.Built Other n n') : T.Alike n n' where
  relabel := h.relabel
  traced := .intro (fun hk => absurd hk (Bool.eq_false_iff.1 h.kind.1))
    (fun hk => absurd hk (Bool.eq_false_iff.1 h.kind.2)) h.held

theorem Built.literal (h : T.Built NotReference n n')
    (hn : ∃ us rest, n.LiteralFrom T.first T.tokens us rest) : T.Alike n n' where
  relabel := h.relabel
  traced := .intro (fun _ => hn) (fun hk => absurd hk (Bool.eq_false_iff.1 h.kind)) h.held

theorem Built.reference (h : T.Built NotLiteral n n')
    (hn : ∃ us rest, n.ReferenceFrom T.first T.tokens us rest) : T.Alike n n' where
  relabel := h.relabel
  traced := .intro (fun hk => absurd hk (Bool.eq_false_iff.1 h.kind)) (fun _ => hn) h.held

theorem Alike.built (h : T.Alike n n') (hp : p n.kind) : T.Built p n n' :=
  ⟨hp, h.relabel, fun _ hc => h.traced.of_mem_held hc⟩

theorem map_relabel_eq {ns ns' : List Node} (h : List.Forall₂ T.Alike ns ns') :
    ns.map (Node.relabel T.view) = ns'.map (Node.relabel T.view') := by
  induction h with
  | nil => rfl
  | cons h _ ih => rw [List.map_cons, List.map_cons, h.relabel, ih]

theorem traced_of_mem {ns ns' : List Node} (h : List.Forall₂ T.Alike ns ns') :
    ∀ n ∈ ns, n.Traced T.first T.tokens := by
  induction h with
  | nil => nofun
  | cons h _ ih => exact List.forall_mem_cons.2 ⟨h.traced, ih⟩

/-! ## Slots -/

theorem paired_datum (r : Role) (a : Atom) : T.Paired (.datum r a) (.datum r a) := by
  constructor
  · rw [Slot.relabel_datum, Slot.relabel_datum]
  · exact .nil

theorem paired_child (r : Role) (h : T.Alike n n') : T.Paired (.child r n) (.child r n') := by
  constructor
  · rw [Slot.relabel_child, Slot.relabel_child, h.relabel]
  · exact .cons h .nil

theorem paired_children (r : Role) {ns ns' : List Node} (h : List.Forall₂ T.Alike ns ns') :
    T.Paired (.children r ns) (.children r ns') := by
  constructor
  · rw [Slot.relabel_children, Slot.relabel_children, map_relabel_eq h]
  · rwa [Slot.nodes_content_children, Slot.nodes_content_children]

theorem paired_nameSlot (w : Text) : T.Paired (Parse.nameSlot w) (Parse.nameSlot w) :=
  paired_datum _ _

theorem paired_optionalSlot (r : Role) {o o' : Option Node} (h : Option.Rel T.Alike o o') :
    T.Paired (Parse.optionalSlot r o) (Parse.optionalSlot r o') := by
  cases h with
  | none => exact paired_datum _ _
  | some h => exact paired_child _ h

/-- The nodes in slots that are paired. -/
theorem forall₂_slotNodes {slots slots' : List Slot} (h : List.Forall₂ T.Paired slots slots') :
    List.Forall₂ T.Alike (slotNodes slots) (slotNodes slots') := by
  induction h with
  | nil => exact .nil
  | cons h _ ih =>
    rw [slotNodes_cons, slotNodes_cons]
    exact List.rel_append h.nodes ih

theorem map_relabel_slots_eq {slots slots' : List Slot} (h : List.Forall₂ T.Paired slots slots') :
    slots.map (Slot.relabel T.view) = slots'.map (Slot.relabel T.view') := by
  induction h with
  | nil => rfl
  | cons h _ ih => rw [List.map_cons, List.map_cons, h.relabel, ih]

end Twin

namespace Parse

variable {α : Type} {T : Twin} {C : List Token → Prop} {k m : Nat}

/-- The result of a rule was read by it. -/
theorem TracksWhere.made {r r' : Parse α} {S : Language Lexeme} {V : α → α → Prop}
    (h : TracksWhere T C k m r r' S V) :
    TracksWhere T C k m r r' S fun a a' => V a a' ∧ ∃ us rest, C (us ++ rest) ∧ m ≤ us.length ∧
      Made T.first T.tokens us rest r a where
  ok := by
    intro p ts a q hp hC hr
    obtain ⟨us, rest, rfl, hm, hus, htracked⟩ := h.ok hp hC hr
    have hmade : ∃ vs rest, C (vs ++ rest) ∧ m ≤ vs.length ∧
        Made T.first T.tokens vs rest r a :=
      ⟨us, rest, hC, hm, hp.suffix, p, q, hp.holds, hr, htracked.passes.holds⟩
    obtain ⟨a', ha⟩ := htracked.partner
    refine ⟨us, rest, rfl, hm, hus, htracked.passes, htracked.inner, ⟨a', ha, hmade⟩, ?_⟩
    intro n p' ts' e hp' hn
    obtain ⟨b, q', us', rest', hts, hsame, hr', hq', hb⟩ := htracked.follows hp' hn
    exact ⟨b, q', us', rest', hts, hsame, hr', hq', hb, hmade⟩
  error hp hC hr := by
    obtain ⟨he, hwhere⟩ := h.error hp hC hr
    refine ⟨he, hwhere.imp_right ?_⟩
    rintro ⟨us, t, rest, hts, hpos, hblames⟩
    exact ⟨us, t, rest, hts, hpos, hblames.viable, hblames.fails⟩

/-- A rule builds nodes that are alike from slots that are paired, behind tokens that match. -/
theorem tracks_node (kind : Kind) {p : Kind → Prop} {start start' : Token}
    {slots slots' : List Slot} (hk : 0 < k) (hkind : p kind) (hstart : T.same start start')
    (hslots : List.Forall₂ T.Paired slots slots') :
    Tracks T k 0 (node start kind slots) (node start' kind slots') 1 (T.Built p) where
  ok := by
    have hbuilt : ∀ {i i' : Nat}, T.stops i i' → T.Built p
        (.mk kind (T.first.info start i) slots) (.mk kind (T.second.info start' i') slots') := by
      intro i i' hi
      refine ⟨hkind, ?_, Twin.traced_of_mem (Twin.forall₂_slotNodes hslots)⟩
      rw [Node.relabel_mk, Node.relabel_mk, T.info hstart hi, Twin.map_relabel_slots_eq hslots]
    intro q ts n q' hq _ hr
    cases hr
    obtain ⟨i', hi⟩ := hq.stops hk
    refine ⟨[], ts, rfl, Nat.zero_le _, rfl, ⟨hq.holds, rfl⟩, nofun, ⟨_, hbuilt hi⟩, ?_⟩
    intro l p' ts' e hp' _
    exact ⟨_, p', [], ts', rfl, .nil, rfl, ⟨hp'.holds, rfl⟩, hbuilt (hp'.stops hk)⟩
  error _ _ hr := by cases hr

end Parse

end GraphSchema
