import GraphSchema.Parser.Document
import GraphSchema.Proofs.Node.Constituent
import GraphSchema.Proofs.Parser.Segment

/-!
# What nodes are read from

Each rule for a node starts the node at the first token that it takes and ends it at the last one,
and the names and nodes that the attributes of the node hold are read from parts of these tokens, in
order, each name from a single token. This is shown rule by rule, from those for literals up to the
one for documents.

## Main definitions

* `Constituent.ReadFrom`, `Node.ReadFrom`: a name or a node was read from some tokens.
* `Parse.Makes`: a rule for a node.
* `Parse.Gathers`: a part of such a rule, which reads nodes to be held.

## Main statements

* `Parse.makes_value`, `Parse.makes_typeReference`, `Parse.makes_definition`: rules for nodes.
* `Parse.ensures_document`: the rule for documents.
-/

namespace GraphSchema

/-- The metadata of a node that starts with a token and ends at an offset. -/
def Parser.Document.info (d : Parser.Document) (first : Token) (stop : Nat) : Metadata where
  source := d.source
  span := if d.located then some ⟨first.start, stop⟩ else none
  location := if d.located then some (d.location first.start) else none
  comments := first.comments.map Atom.text
  ignored := .text first.ignored
  data := []

/-- A name is the value of the single token that it was read from. A node starts with the first one
of its tokens and ends with the last one, and what its attributes hold was read from parts of them,
in order. -/
inductive Constituent.ReadFrom (d : Parser.Document) : List Token → Constituent → Prop
  | name {t : Token} (kind : t.kind = .name) : ReadFrom d [t] (.name t.value)
  | node {first last : Token} {us : List Token} {n : Node} (first_eq : us.head? = some first)
      (last_eq : us.getLast? = some last) (info : n.info = d.info first last.stop)
      (constituents : Segments (ReadFrom d) us n.constituents) : ReadFrom d us (.node n)

theorem Constituent.ReadFrom.ne_nil {d : Parser.Document} {us : List Token} {x : Constituent}
    (h : x.ReadFrom d us) : us ≠ [] := by
  cases h with
  | name => exact List.cons_ne_nil _ _
  | node hfirst =>
    rintro rfl
    cases hfirst

/-- The node was read from the tokens. -/
abbrev Node.ReadFrom (d : Parser.Document) (us : List Token) (n : Node) : Prop :=
  Constituent.ReadFrom d us (.node n)

/-- The nodes among what was read. -/
theorem Constituent.ReadFrom.nodes {d : Parser.Document} {us : List Token} {xs : List Constituent}
    (h : Segments (ReadFrom d) us xs) :
    Segments (Node.ReadFrom d) us (xs.filterMap Constituent.node?) :=
  h.filterMap fun ys x n hx hn => by
    cases x with
    | node m =>
      cases hn
      exact hx
    | name t => cases hn

/-- A node starts with the first one of the tokens and ends with the last one, and the nodes that it
holds were read from parts of them. -/
theorem Node.ReadFrom.exists_ends {d : Parser.Document} {us : List Token} {n : Node}
    (h : n.ReadFrom d us) : ∃ first last, us.head? = some first ∧ us.getLast? = some last ∧
      n.info = d.info first last.stop ∧ Segments (Node.ReadFrom d) us n.held := by
  cases h with
  | node hfirst hlast hinfo hconstituents =>
    have hnodes := Constituent.ReadFrom.nodes hconstituents
    exact ⟨_, _, hfirst, hlast, hinfo, n.filterMap_constituents ▸ hnodes⟩

namespace Parse

variable {α β : Type} {d : Parser.Document} {t : Token} {taken b c : Bool} {xs : List Constituent}
  {us ts : List Token} {item : Parse Node}

/-- In the middle of a rule for a node: the names and nodes `xs` were read from parts of the tokens
taken, the first of which is or will be `t`, and it is known whether there are some. -/
structure Part (d : Parser.Document) (t : Token) (taken : Bool) (xs : List Constituent)
    (us ts : List Token) : Prop where
  segments : Segments (Constituent.ReadFrom d) us xs
  first : (us ++ ts).head? = some t
  ne_nil : taken → us ≠ []

/-- The rule reads the names and nodes that are given by its result; `c` says whether it is sure to
take a token. -/
def Gathers (d : Parser.Document) (c : Bool) (r : Parse α) (f : α → List Constituent) : Prop :=
  ∀ t b xs, Ensures d (Part d t b xs) r fun a => Part d t (b || c) (xs ++ f a)

/-- The rule reads the nodes that are given by its result. -/
abbrev GathersNodes (d : Parser.Document) (c : Bool) (r : Parse α) (f : α → List Node) : Prop :=
  Gathers d c r fun a => (f a).map .node

/-- The rule completes a node that starts with `t`. -/
def Builds (d : Parser.Document) (t : Token) (taken : Bool) (xs : List Constituent)
    (r : Parse Node) : Prop :=
  Ensures d (Part d t taken xs) r fun n us _ => n.ReadFrom d us

/-- With the token `t` ahead, the rule reads a node. -/
def MakesAhead (d : Parser.Document) (t : Token) (r : Parse Node) : Prop :=
  Ensures d (fun us ts => us = [] ∧ ts.head? = some t) r fun n us _ => n.ReadFrom d us

/-- The rule reads a node. -/
def Makes (d : Parser.Document) (r : Parse Node) : Prop :=
  Ensures d (fun us _ => us = []) r fun n us _ => n.ReadFrom d us

@[simp] theorem constituents_nameSlot {k : Kind} {name : Text} :
    (nameSlot name).constituents k = [.name name] := rfl

@[simp] theorem constituents_operationSlot {k : Kind} {name : Text} :
    (Slot.datum .operation (.text name)).constituents k = [.name name] := rfl

@[simp] theorem constituents_optionalSlot {k : Kind} {r : Role} {o : Option Node} :
    (optionalSlot r o).constituents k = o.toList.map .node := by
  cases o with
  | none => exact Slot.constituents_of_text rfl
  | some n => exact Slot.constituents_child

/-! ## Rules in sequence -/

theorem Part.start (h : ts.head? = some t) : Part d t false [] [] ts := ⟨.nil _, h, nofun⟩

theorem Part.take {u : Token} (h : Part d t b xs us (u :: ts)) : Part d t c xs (us ++ [u]) ts where
  segments := by simpa using h.segments.append (.nil [u])
  first := by simpa using h.first
  ne_nil := by simp

theorem Part.mono (h : Part d t b xs us ts) (hb : c → b) : Part d t c xs us ts :=
  ⟨h.segments, h.first, fun hc => h.ne_nil (hb hc)⟩

/-- A name or a node from the part of the tokens that was taken last. -/
theorem Part.concat {x : Constituent} {vs : List Token} (h : Part d t b xs us (vs ++ ts))
    (hx : x.ReadFrom d vs) : Part d t c (xs ++ [x]) (us ++ vs) ts where
  segments := h.segments.concat hx
  first := by simpa using h.first
  ne_nil := by simp [hx.ne_nil]

namespace Gathers

variable {r : Parse α} {f : α → List Constituent} {k : α → Parse β} {g : β → List Constituent}

theorem mono (h : Gathers d b r f) (hc : c → b) : Gathers d c r f := fun t e xs =>
  (h t e xs).conseq (fun _ _ h => h) fun _ _ _ h =>
    h.mono fun he => Bool.or_eq_true_iff.2 ((Bool.or_eq_true_iff.1 he).imp_right hc)

/-- A part of a rule for a node, and the rest of the rule. -/
theorem «then» {k : α → Parse Node} (h : Gathers d c r f)
    (hk : ∀ a, Builds d t (taken || c) (xs ++ f a) (k a)) : Builds d t taken xs (r >>= k) :=
  (h t taken xs).bind hk

/-- A part that reads neither names nor nodes, and another part. -/
theorem before (h : Gathers d b r fun _ => []) (hk : ∀ a, Gathers d c (k a) g) :
    Gathers d (b || c) (r >>= k) g := by
  intro t b' xs
  refine (h t b' xs).bind fun a => ?_
  rw [List.append_nil, ← Bool.or_assoc]
  exact hk a _ _ _

/-- A part, and the result under another name. -/
theorem map {φ : α → β} (h : Gathers d c r f) (hg : ∀ a, g (φ a) = f a) :
    Gathers d c (r >>= fun a => pure (φ a)) g :=
  fun t b xs => (h t b xs).bind fun _ => ensures_pure fun _ _ h => by rwa [hg]

end Gathers

theorem gathers_pure {a : α} {f : α → List Constituent} (h : f a = []) :
    Gathers d false (pure a) f :=
  fun _ _ _ => ensures_pure fun _ _ hp => by rwa [h, List.append_nil, Bool.or_false]

theorem gathers_failAt {cause : SyntaxError.Cause} {f : α → List Constituent} :
    Gathers d c (failAt t cause) f :=
  fun _ _ _ => ensures_failAt

/-- A rule that starts with a look at the next token. -/
theorem makes_peek_bind {k : Token → Parse Node} (hk : ∀ t, MakesAhead d t (k t)) :
    Makes d (peek >>= k) :=
  ensures_peek.bind hk

theorem Makes.ahead {r : Parse Node} (h : Makes d r) : MakesAhead d t r :=
  h.conseq (fun _ _ h => h.1) fun _ _ _ h => h

theorem Builds.ahead {r : Parse Node} (h : Builds d t false [] r) : MakesAhead d t r :=
  h.conseq (fun _ _ h => h.1 ▸ .start h.2) fun _ _ _ h => h

/-- A rule that starts its node with the next token. -/
theorem makes_start {k : Token → Parse Node} (hk : ∀ t, Builds d t false [] (k t)) :
    Makes d (peek >>= k) :=
  makes_peek_bind fun t => (hk t).ahead

/-- A rule that starts its node with the token that it takes first. -/
theorem makes_take {r : Parse Token} {k : Token → Parse Node}
    (hr : Ensures d (fun us _ => us = []) r fun t us _ => us = [t])
    (hk : ∀ t, Builds d t true [] (k t)) : Makes d (r >>= k) :=
  hr.bind fun t => (hk t).conseq (fun _ _ h => h ▸ (Part.start rfl).take) fun _ _ _ h => h

/-- A rule for a node, as a part of a rule for the node above. -/
theorem Makes.gathers {r : Parse Node} (h : Makes d r) : Gathers d true r fun n => [.node n] := by
  refine fun t b xs => h.after.conseq (fun _ _ h => h) fun n us ts hn => ?_
  obtain ⟨vs, ws, rfl, hp, hn⟩ := hn
  exact hp.concat hn

/-! ## Single tokens -/

theorem gathers_peek : Gathers d false peek fun _ => [] := fun _ _ _ =>
  ensures_peek.conseq (fun _ _ h => h) fun _ _ _ h => by simpa using h.1

theorem gathers_advance : Gathers d true advance fun _ => [] := by
  refine fun t b xs => ensures_advance.conseq (fun _ _ h => h) fun _ _ _ h => ?_
  obtain ⟨vs, rfl, hp⟩ := h
  simpa using hp.take

theorem gathers_expect (kind : Token.Kind) : Gathers d true (expect kind) fun _ => [] := by
  refine fun t b xs => (ensures_expect kind).conseq (fun _ _ h => h) fun _ _ _ h => ?_
  obtain ⟨-, vs, rfl, hp⟩ := h
  simpa using hp.take

theorem gathers_expectWord (word : Text) : Gathers d true (expectWord word) fun _ => [] := by
  refine fun t b xs => (ensures_expectWord word).conseq (fun _ _ h => h) fun _ _ _ h => ?_
  obtain ⟨-, vs, rfl, hp⟩ := h
  simpa using hp.take

theorem gathers_skip (kind : Token.Kind) : Gathers d false (skip kind) fun _ => [] := by
  refine fun t b xs => (ensures_skip kind).conseq (fun _ _ h => h) fun _ _ _ h => ?_
  rw [List.append_nil, Bool.or_false]
  split at h
  · obtain ⟨vs, u, -, rfl, hp⟩ := h
    exact hp.take
  · exact h

theorem gathers_ahead (kind : Token.Kind) : Gathers d false (ahead kind) fun _ => [] :=
  gathers_peek.map fun _ => rfl

/-- A token that is a name. -/
theorem gathers_expectName : Gathers d true (expect .name) fun t => [.name t.value] := by
  refine fun t b xs => (ensures_expect .name).conseq (fun _ _ h => h) fun u _ _ h => ?_
  obtain ⟨hkind, vs, rfl, hp⟩ := h
  exact Part.concat hp (.name hkind)

/-- A rule that starts its node with a token of a kind. -/
theorem makes_expect_bind {kind : Token.Kind} {k : Token → Parse Node}
    (hk : ∀ t, Builds d t true [] (k t)) : Makes d (expect kind >>= k) := by
  refine makes_take ((ensures_expect kind).conseq (fun _ _ h => h) fun t us _ h => ?_) hk
  obtain ⟨-, vs, rfl, rfl⟩ := h
  rfl

/-- A rule that starts its node with any token. -/
theorem makes_advance_bind {k : Token → Parse Node} (hk : ∀ t, Builds d t true [] (k t)) :
    Makes d (advance >>= k) := by
  refine makes_take (ensures_advance.conseq (fun _ _ h => h) fun t us _ h => ?_) hk
  obtain ⟨vs, rfl, rfl⟩ := h
  rfl

/-- The node that a rule ends with. -/
theorem ensures_node {P : TokenCondition} (t : Token) (kind : Kind) (slots : List Slot) :
    Ensures d P (node t kind slots) fun n us ts =>
      P us ts ∧ n.kind = kind ∧ n.slots = slots ∧
        ∀ last ∈ us.getLast?, n.info = d.info t last.stop := by
  intro p q n k us ts hp hb hr
  cases hr
  refine ⟨[], ts, rfl, by rwa [List.append_nil], ?_⟩
  rw [List.append_nil]
  refine ⟨hp, rfl, rfl, fun last hlast => ?_⟩
  change d.info t p.lastStop = _
  rw [hb.lastStop, stopAfter, hlast]
  rfl

/-- A node is complete when its attributes hold all names and nodes that were read. -/
theorem builds_node {kind : Kind} {slots : List Slot} (h : slotConstituents kind slots = xs) :
    Builds d t true xs (node t kind slots) := by
  refine (ensures_node t kind slots).conseq (fun _ _ h => h) fun n us ts hn => ?_
  obtain ⟨hp, hkind, hslots, hinfo⟩ := hn
  have hne := hp.ne_nil rfl
  have hlast := List.getLast?_eq_some_getLast hne
  have hconstituents : n.constituents = xs := by rw [Node.constituents, hkind, hslots, h]
  refine .node ?_ hlast (hinfo _ hlast) (hconstituents ▸ hp.segments)
  obtain ⟨u, us, rfl⟩ := List.exists_cons_of_ne_nil hne
  exact hp.first

/-! ## Lists -/

theorem gathers_allUntil {stop : Parse Bool} (hs : Gathers d false stop fun _ => [])
    (hi : Makes d item) : GathersNodes d false (allUntil stop item) fun ns => ns := by
  intro t b xs
  let P : List Node → TokenCondition := fun ns => Part d t b (xs ++ ns.map .node)
  have hstop : ∀ ns, Ensures d (P ns) stop fun e us ts => if e then P ns us ts else P ns us ts :=
    fun ns => (hs t b _).conseq (fun _ _ h => h) fun _ _ _ h => by simpa using h
  have hitem : ∀ ns, Ensures d (P ns) item fun n => P (ns ++ [n]) :=
    fun ns => (hi.gathers t b _).conseq (fun _ _ h => h) fun _ _ _ h => by
      rw [List.append_assoc] at h
      change Part d t b (xs ++ (ns ++ [_]).map .node) _ _
      rw [List.map_append]
      exact h.mono fun hb => Bool.or_eq_true_iff.2 (.inl hb)
  have hall := ensures_itemsUntil (P := P) (Q := P) hstop hitem d.budget []
  exact Ensures.read_bind (hall.conseq (fun _ _ h => by simpa [P] using h)
    fun _ _ _ h => by simpa [P] using h)

theorem gathers_someUntil {stop : Parse Bool} (hs : Gathers d false stop fun _ => [])
    (hi : Makes d item) : GathersNodes d true (someUntil stop item) fun ns => ns := by
  intro t b xs
  refine (hi.gathers t b xs).bind fun n => (gathers_allUntil hs hi t _ _).bind fun rest => ?_
  exact ensures_pure fun us ts h => by simpa using h

theorem gathers_many {opening closing : Token.Kind} (hi : Makes d item) :
    GathersNodes d true (many opening item closing) fun ns => ns :=
  (gathers_expect _).before fun _ => gathers_someUntil (gathers_skip _) hi

theorem gathers_any {opening closing : Token.Kind} (hi : Makes d item) :
    GathersNodes d true (any opening item closing) fun ns => ns :=
  (gathers_expect _).before fun _ => gathers_allUntil (gathers_skip _) hi

theorem gathers_delimited {delimiter : Token.Kind} (hi : Makes d item) :
    GathersNodes d true (delimited delimiter item) fun ns => ns :=
  (gathers_skip _).before fun _ => gathers_someUntil ((gathers_skip _).map fun _ => rfl) hi

theorem gathers_optionalMany {opening closing : Token.Kind} (hi : Makes d item) :
    GathersNodes d false (optionalMany opening item closing) fun ns => ns := by
  refine (gathers_ahead opening).before fun b => ?_
  split
  · exact (gathers_many hi).mono nofun
  · exact gathers_pure rfl

/-! ## Literals -/

theorem gathers_name : Gathers d true name fun word => [.name word] :=
  gathers_expectName.map fun _ => rfl

theorem makes_stringLiteral : Makes d stringLiteral :=
  makes_advance_bind fun _ => builds_node rfl

theorem makes_listOf (hi : Makes d item) : Makes d (listOf item) :=
  makes_start fun _ => (gathers_any hi).then fun _ => builds_node (by simp)

theorem makes_entryOf (kind : Kind) (hi : Makes d item) : Makes d (entryOf kind item) :=
  makes_start fun _ => gathers_name.then fun _ => (gathers_expect _).then fun _ =>
    hi.gathers.then fun _ => builds_node (by simp)

theorem makes_objectOf (hi : Makes d item) : Makes d (objectOf item) :=
  makes_expect_bind fun _ =>
    (gathers_allUntil (gathers_skip _) (makes_entryOf _ hi)).then fun _ => builds_node (by simp)

/-- A node that was read from a single token. -/
theorem makesAhead_leaf {kind : Kind} {slots : List Slot}
    (h : Segments (Constituent.ReadFrom d) [t] (slotConstituents kind slots)) :
    MakesAhead d t (advance >>= fun _ => node t kind slots) := by
  refine ensures_advance.bind fun u => Ensures.conseq (builds_node rfl) (fun us ts hu => ?_)
    fun _ _ _ h => h
  obtain ⟨vs, rfl, rfl, hhead⟩ := hu
  cases hhead
  exact ⟨h, rfl, by simp⟩

/-- A name that stands for a literal is the one that the literal holds, if it holds one. -/
theorem segments_wordLiteral (h : t.kind = .name) : Segments (Constituent.ReadFrom d) [t]
    (slotConstituents (wordLiteral t.value).1 (wordLiteral t.value).2) := by
  unfold wordLiteral
  split
  · exact .nil _
  split
  · exact .nil _
  split
  · exact .nil _
  · exact .single (.name h)

theorem makes_valueOf (hi : Makes d item) : Makes d (valueOf item) := by
  refine makes_peek_bind fun t => ?_
  split
  · exact (makes_listOf hi).ahead
  · exact (makes_objectOf hi).ahead
  · exact makesAhead_leaf (.nil _)
  · exact makesAhead_leaf (.nil _)
  · exact makes_stringLiteral.ahead
  · exact makes_stringLiteral.ahead
  · exact makesAhead_leaf (segments_wordLiteral ‹_›)
  · exact ensures_unexpected

theorem makes_valueWithin (depth : Nat) : Makes d (valueWithin depth) := by
  induction depth with
  | zero => exact ensures_failAtEnd
  | succ depth ih => exact makes_valueOf ih

theorem makes_value : Makes d value := Ensures.read_bind (makes_valueWithin _)

theorem makes_argument : Makes d argument := makes_entryOf _ makes_value

theorem gathers_arguments : GathersNodes d false arguments fun ns => ns :=
  gathers_optionalMany makes_argument

theorem makes_directive : Makes d directive :=
  makes_expect_bind fun _ => gathers_name.then fun _ =>
    gathers_arguments.then fun _ => builds_node (by simp)

theorem gathers_directives : GathersNodes d false directives fun ns => ns :=
  gathers_allUntil ((gathers_ahead _).map fun _ => rfl) makes_directive

/-! ## References to types -/

theorem makes_namedType : Makes d namedType :=
  makes_start fun _ => gathers_name.then fun _ => builds_node rfl

/-- A reference starts with the same token with and without the mark that may follow it. -/
theorem ensures_mark {P : TokenCondition} {r : Parse Node}
    (h : Ensures d P r fun n us _ => n.ReadFrom d us)
    (hP : ∀ us ts, P us ts → (us ++ ts).head? = some t) :
    Ensures d P (r >>= fun m => skip .exclamationMark >>= fun b =>
      if b then node t .nonNullType [.child .type m] else pure m)
      fun n us _ => n.ReadFrom d us := by
  have hwhole : Ensures d P r fun n us ts => n.ReadFrom d us ∧ (us ++ ts).head? = some t :=
    (h.whole (C := fun all => all.head? = some t)).conseq (fun us ts hp => ⟨hp, hP us ts hp⟩)
      fun _ _ _ h => h
  refine hwhole.bind fun m => (ensures_skip _).bind fun b => ?_
  cases b with
  | true =>
    have hnode : Builds d t true [.node m] (node t .nonNullType [.child .type m]) := builds_node rfl
    refine hnode.conseq (fun us ts h => ?_) fun _ _ _ h => h
    obtain ⟨vs, u, -, rfl, hm, hfirst⟩ := h
    exact Part.take (b := false) ⟨.single hm, hfirst, nofun⟩
  | false => exact ensures_pure fun _ _ h => h.1

theorem makes_typeOf (hi : Makes d item) : Makes d (typeOf item) := by
  refine makes_peek_bind fun start => (ensures_skip _).bind fun b => ?_
  cases b with
  | true =>
    have hlist : Builds d start true [] (item >>= fun inner => expect .bracketClose >>= fun _ =>
        node start .listType [.child .type inner] >>= fun m => skip .exclamationMark >>= fun b =>
          if b then node start .nonNullType [.child .type m] else pure m) :=
      hi.gathers.then fun _ => (gathers_expect _).then fun _ =>
        ensures_mark (builds_node (by simp)) fun _ _ h => h.first
    refine hlist.conseq (fun us ts h => ?_) fun _ _ _ h => h
    obtain ⟨vs, u, -, rfl, rfl, hfirst⟩ := h
    exact (Part.start hfirst).take
  | false =>
    refine ensures_mark (makes_namedType.conseq (fun _ _ h => h.1) fun _ _ _ h => h) ?_
    rintro us ts ⟨rfl, h⟩
    exact h

theorem makes_typeWithin (depth : Nat) : Makes d (typeWithin depth) := by
  induction depth with
  | zero => exact ensures_failAtEnd
  | succ depth ih => exact makes_typeOf ih

theorem makes_typeReference : Makes d typeReference := Ensures.read_bind (makes_typeWithin _)

/-! ## Members -/

theorem gathers_description : GathersNodes d false description Option.toList := by
  refine gathers_peek.before fun t => ?_
  split
  · exact (makes_stringLiteral.gathers.map fun _ => rfl).mono nofun
  · exact gathers_pure rfl

theorem gathers_operationName : Gathers d true operationName fun word => [.name word] := by
  refine fun t b xs => (gathers_expectName t b xs).bind fun u => ?_
  split
  · exact ensures_pure fun _ _ h => h
  · exact ensures_unexpected

theorem makes_operationType : Makes d operationType :=
  makes_start fun _ => gathers_operationName.then fun _ => (gathers_expect _).then fun _ =>
    makes_namedType.gathers.then fun _ => builds_node (by simp)

theorem gathers_defaultValue : GathersNodes d false defaultValue Option.toList := by
  refine (gathers_skip _).before fun b => ?_
  split
  · exact (makes_value.gathers.map fun _ => rfl).mono nofun
  · exact gathers_pure rfl

theorem makes_inputValue : Makes d inputValue :=
  makes_start fun _ => gathers_description.then fun _ => gathers_name.then fun _ =>
    (gathers_expect _).then fun _ => makes_typeReference.gathers.then fun _ =>
      gathers_defaultValue.then fun _ => gathers_directives.then fun _ => builds_node (by simp)

theorem gathers_argumentDefinitions : GathersNodes d false argumentDefinitions fun ns => ns :=
  gathers_optionalMany makes_inputValue

theorem makes_field : Makes d field :=
  makes_start fun _ => gathers_description.then fun _ => gathers_name.then fun _ =>
    gathers_argumentDefinitions.then fun _ => (gathers_expect _).then fun _ =>
      makes_typeReference.gathers.then fun _ => gathers_directives.then fun _ =>
        builds_node (by simp)

theorem makes_enumValue : Makes d enumValue := by
  refine makes_start fun _ => gathers_description.then fun _ => gathers_peek.then fun _ =>
    gathers_name.then fun _ => ?_
  split
  · exact (gathers_failAt (c := false) (f := fun _ => [])).then fun _ =>
      gathers_directives.then fun _ => builds_node (by simp)
  · exact gathers_directives.then fun _ => builds_node (by simp)

theorem gathers_interfaces : GathersNodes d false interfaces fun ns => ns := by
  refine gathers_peek.before fun t => ?_
  split
  · exact (gathers_advance.before fun _ => gathers_delimited makes_namedType).mono nofun
  · exact gathers_pure rfl

theorem gathers_unionMembers : GathersNodes d false unionMembers fun ns => ns := by
  refine (gathers_skip _).before fun b => ?_
  split
  · exact (gathers_delimited makes_namedType).mono nofun
  · exact gathers_pure rfl

theorem gathers_members (k : TypeKind) (r : Role) :
    GathersNodes d false (members k r) fun ns => ns := by
  unfold members
  split
  · exact gathers_interfaces
  · exact gathers_directives
  · split
    · exact gathers_optionalMany makes_inputValue
    · exact gathers_optionalMany makes_field
  · exact gathers_unionMembers
  · exact gathers_optionalMany makes_enumValue
  · exact gathers_pure rfl

theorem gathers_mapM {γ : Type} {g : γ → Parse Slot} {k : Kind}
    (h : ∀ x, Gathers d false (g x) fun s => s.constituents k) (rs : List γ) :
    Gathers d false (rs.mapM g) (slotConstituents k) := by
  induction rs with
  | nil => exact gathers_pure rfl
  | cons x rs ih =>
    intro t b xs
    rw [List.mapM_cons]
    refine (h x t b xs).bind fun s => (ih t _ _).bind fun slots => ensures_pure fun us ts h => ?_
    simpa using h

theorem gathers_allMembers (k : TypeKind) (k' : Kind) :
    Gathers d false (allMembers k) (slotConstituents k') :=
  gathers_mapM (fun r => (gathers_members k r).map fun _ => by simp) _

/-! ## Definitions and extensions -/

theorem makes_typeDefinition (k : TypeKind) : Makes d (typeDefinition k) :=
  makes_start fun _ => gathers_description.then fun _ => (gathers_expectWord _).then fun _ =>
    gathers_name.then fun _ => (gathers_allMembers k (.typeDefinition k)).then fun _ =>
      builds_node (by simp)

theorem makes_schemaDefinition : Makes d schemaDefinition :=
  makes_start fun _ => gathers_description.then fun _ => (gathers_expectWord _).then fun _ =>
    gathers_directives.then fun _ => (gathers_many makes_operationType).then fun _ =>
      builds_node (by simp)

theorem makes_directiveLocation : Makes d directiveLocation := by
  refine makes_start fun _ => gathers_name.then fun _ => ?_
  split
  · exact builds_node rfl
  · exact ensures_failAt

theorem makes_directiveDefinition : Makes d directiveDefinition :=
  makes_start fun _ => gathers_description.then fun _ => (gathers_expectWord _).then fun _ =>
    (gathers_expect _).then fun _ => gathers_name.then fun _ =>
      gathers_argumentDefinitions.then fun _ => (gathers_expectWord _).then fun _ =>
        (gathers_delimited makes_directiveLocation).then fun _ => builds_node (by simp)

theorem makes_typeSystemDefinition : Makes d typeSystemDefinition := by
  refine makes_peek_bind fun t => ?_
  split
  · refine (ensures_peekAt 1).bind fun u => ?_
    refine (Makes.ahead ?_).conseq (fun _ _ h => h.1) fun _ _ _ h => h
    dsimp only
    split
    · exact makes_schemaDefinition
    · exact makes_typeDefinition _
    · exact makes_directiveDefinition
    · exact ensures_unexpected
  · rw [pure_bind]
    refine Makes.ahead ?_
    dsimp only
    split
    · exact makes_schemaDefinition
    · exact makes_typeDefinition _
    · exact makes_directiveDefinition
    · exact ensures_unexpected

theorem gathers_requireAny (slots : List Slot) :
    Gathers d false (requireAny slots) fun _ => [] := by
  unfold requireAny
  split
  · exact gathers_peek.before fun _ => gathers_failAt
  · exact gathers_pure rfl

theorem makes_schemaExtension : Makes d schemaExtension :=
  makes_start fun _ => (gathers_expectWord _).then fun _ => (gathers_expectWord _).then fun _ =>
    gathers_directives.then fun _ => (gathers_optionalMany makes_operationType).then fun _ =>
      (gathers_requireAny _).then fun _ => builds_node (by simp)

theorem makes_typeExtension (k : TypeKind) : Makes d (typeExtension k) :=
  makes_start fun _ => (gathers_expectWord _).then fun _ => (gathers_expectWord _).then fun _ =>
    gathers_name.then fun _ => (gathers_allMembers k (.typeExtension k)).then fun _ =>
      (gathers_requireAny _).then fun _ => builds_node (by simp)

theorem makes_typeSystemExtension : Makes d typeSystemExtension := by
  refine ((ensures_peekAt 1).conseq (fun _ _ h => h) fun _ _ _ h => h.1).bind fun u => ?_
  split
  · exact makes_schemaExtension
  · exact makes_typeExtension _
  · exact ensures_unexpected

theorem makes_definition : Makes d definition := by
  refine makes_peek_bind fun t => ?_
  split
  · exact makes_typeSystemDefinition.ahead
  · split
    · exact makes_typeSystemExtension.ahead
    · exact ensures_unexpected

/-! ## Documents -/

/-- Among the definitions of a document: those read so far were read from the tokens behind the
first one. -/
def Within (d : Parser.Document) (first : Token) (ns : List Node) : TokenCondition := fun us _ =>
  ∃ inner, us = first :: inner ∧ Segments (Node.ReadFrom d) inner ns

/-- Behind the definitions of a document: they were read from the tokens between its ends. -/
def Closed (d : Parser.Document) (first : Token) (ns : List Node) : TokenCondition := fun us _ =>
  ∃ inner last, us = first :: (inner ++ [last]) ∧ last.kind = .finish ∧
    Segments (Node.ReadFrom d) inner ns

theorem ensures_definitions :
    Ensures d (fun us _ => us = [t]) (someUntil (skip .finish) definition) (Closed d t) := by
  have hstop : ∀ as, Ensures d (Within d t as) (skip .finish) fun b us ts =>
      if b then Closed d t as us ts else Within d t as us ts := by
    refine fun as => (ensures_skip _).conseq (fun _ _ h => h) fun b us ts h => ?_
    cases b with
    | true =>
      obtain ⟨vs, last, hlast, rfl, inner, rfl, hs⟩ := h
      exact ⟨inner, last, rfl, hlast, hs⟩
    | false => exact h
  have hitem : ∀ as, Ensures d (Within d t as) definition fun n => Within d t (as ++ [n]) := by
    refine fun as => makes_definition.after.conseq (fun _ _ h => h) fun n us ts h => ?_
    obtain ⟨vs, ws, rfl, ⟨inner, rfl, hs⟩, hn⟩ := h
    exact ⟨inner ++ ws, rfl, hs.concat hn⟩
  exact (ensures_someUntil hstop hitem []).conseq (fun _ _ h => ⟨[], h, .nil _⟩) fun _ _ _ h => h

/-- A document takes a token in front of its definitions and one behind them. -/
theorem ensures_document :
    Ensures d (fun us _ => us = []) document fun n us _ => ∃ first inner last,
      us = first :: (inner ++ [last]) ∧ last.kind = .finish ∧ n.info = d.info first last.stop ∧
        Segments (Node.ReadFrom d) inner n.held := by
  refine ensures_peek.bind fun first => Ensures.bind (Q := fun _ us _ => us = [first])
    ((ensures_expect _).conseq (fun _ _ h => h) fun _ us _ h => ?_) fun _ =>
      ensures_definitions.bind fun ns => (ensures_node _ _ _).conseq (fun _ _ h => h)
        fun n us _ h => ?_
  · obtain ⟨-, vs, rfl, rfl, hhead⟩ := h
    rw [Option.some.inj hhead]
    rfl
  · obtain ⟨⟨inner, last, rfl, hlast, hs⟩, -, hslots, hinfo⟩ := h
    refine ⟨first, inner, last, rfl, hlast, hinfo last ?_, ?_⟩
    · rw [← List.cons_append, List.getLast?_concat]
      rfl
    · rw [Node.held, hslots]
      simpa using hs

end Parse

end GraphSchema
