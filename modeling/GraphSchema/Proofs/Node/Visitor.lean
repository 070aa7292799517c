import GraphSchema.Node.Edit
import GraphSchema.Proofs.Grammar.WellTyped
import GraphSchema.Proofs.Node.Tree

/-!
# Visitors rebuild trees

A visitor rebuilds only what has changed. What it gives back, and the calls that it makes on the
way, are those of the plain recursion that rebuilds everything.

## Main definitions

* `Visitor.Choice`: what becomes of the nodes of a tree when they are entered.
* `Visitor.Choice.plain`: the plain recursion, with its calls.
* `Visitor.Choice.recording`: the visitor that chooses so and records its calls.

## Main statements

* `Visitor.Choice.plain_eq`: one step of the plain recursion.
* `Visitor.Choice.visit_recording`: the walk of the visitor is the plain recursion.
-/

namespace GraphSchema

namespace Visitor

open Node
open Edit (Event Walk record)

/-! ## The plain recursion -/

section InTurn

variable {α β γ : Type} {f g : List Event → α → β × List Event}

/-- Things one after the other: what became of each of them, and what happened on the way. Each one
is told what happened before. -/
def inTurn (f : List Event → α → β × List Event) (before : List Event) :
    List α → List β × List Event
  | [] => ([], [])
  | a :: rest =>
    let first := f before a
    let others := inTurn f (before ++ first.2) rest
    (first.1 :: others.1, first.2 ++ others.2)

theorem length_inTurn (before : List Event) (as : List α) :
    (inTurn f before as).1.length = as.length := by
  induction as generalizing before with
  | nil => rfl
  | cons a as ih => exact congrArg (· + 1) (ih _)

theorem inTurn_map (h : γ → α) (before : List Event) (cs : List γ) :
    inTurn f before (cs.map h) = inTurn (fun before c => f before (h c)) before cs := by
  induction cs generalizing before with
  | nil => rfl
  | cons c cs ih => simp only [List.map_cons, inTurn, ih]

theorem inTurn_attach (f : List Event → α → β × List Event) (before : List Event) (as : List α) :
    inTurn (fun before a => f before a.1) before as.attach = inTurn f before as := by
  rw [← inTurn_map Subtype.val, List.attach_map_subtype_val]

end InTurn

/-- What becomes of the nodes that a visitor enters, which may depend on the calls before. A node is
replaced by a tree that is no larger. -/
structure Choice where
  step : (before : List Event) → Node → Step
  replacement : ∀ before n m, step before n = .replace m → m.size ≤ n.size ∧ m.IsTree

namespace Choice

/-- The plain recursion: what is left of a node, and the calls of the visitor. A node that is
skipped stays, and one that is dropped goes. Of one that is kept, and of what replaces one, each
place of children is filled with what is left of the children there. -/
def plain (c : Choice) (before : List Event) (n : Node) : Option Node × List Event :=
  let rebuilt (m : Node) (hm : m.size ≤ n.size) : Option Node × List Event :=
    let below := inTurn (fun before s =>
      if m.kind.isChildRole s.1.role then
        let visited := inTurn (fun before child => c.plain before child.1) before
          (s.1.childNodes m.kind).attach
        (s.1.refilled m.kind (visited.1.filterMap id), visited.2)
      else (s.1, [])) (before ++ [.entered n]) m.slots.attach
    (some (m.withSlots below.1), .entered n :: (below.2 ++ [.left (m.withSlots below.1)]))
  match h : c.step before n with
  | .skip => (some n, [.entered n])
  | .drop => (none, [.entered n])
  | .keep => rebuilt n (Nat.le_refl _)
  | .replace m => rebuilt m (c.replacement before n m h).1
termination_by n.size
decreasing_by exact Nat.lt_of_lt_of_le (Slot.size_lt_of_mem_childNodes s.2 child.2) hm

/-- The visitor that chooses so and records its calls. It fails on what is no node in the place of
one, and where children cannot be replaced. -/
def recording (c : Choice) : Visitor Walk where
  enter n := do
    let before ← get
    record (.entered n)
    return c.step before n
  leave n := record (.left n)
  stray _ := throw .noAttribute
  refuse fault := throw fault.failure

/-- The plain recursion over a slot. -/
def plainSlot (c : Choice) (k : Kind) (before : List Event) (s : Slot) : Slot × List Event :=
  if k.isChildRole s.role then
    let visited := inTurn c.plain before (s.childNodes k)
    (s.refilled k (visited.1.filterMap id), visited.2)
  else (s, [])

/-- The plain recursion over what stands in the place of a node that was entered. -/
def plainBelow (c : Choice) (before : List Event) (n m : Node) : Option Node × List Event :=
  let below := inTurn (c.plainSlot m.kind) (before ++ [.entered n]) m.slots
  (some (m.withSlots below.1), .entered n :: (below.2 ++ [.left (m.withSlots below.1)]))

/-- One step of the plain recursion. -/
theorem plain_eq (c : Choice) (before : List Event) (n : Node) :
    c.plain before n =
      match c.step before n with
      | .skip => (some n, [.entered n])
      | .drop => (none, [.entered n])
      | .keep => c.plainBelow before n n
      | .replace m => c.plainBelow before n m := by
  have hslots : ∀ m : Node, ∀ before, inTurn (fun before (s : { s // s ∈ m.slots }) =>
      if m.kind.isChildRole s.1.role then
        let visited := inTurn (fun before child => c.plain before child.1) before
          (s.1.childNodes m.kind).attach
        (s.1.refilled m.kind (visited.1.filterMap id), visited.2)
      else (s.1, [])) before m.slots.attach = inTurn (c.plainSlot m.kind) before m.slots := by
    intro m before
    rw [← inTurn_attach (c.plainSlot m.kind)]
    simp only [plainSlot, inTurn_attach]
  rw [plain]
  simp only [hslots]
  split <;> simp only [*, plainBelow]

end Choice

/-! ## Walks that record calls -/

/-- The walk gives back a value, and records events behind those before it. -/
def Gives {α : Type} (walk : Walk α) (before : List Event) (a : α) (events : List Event) : Prop :=
  walk.run before = (.ok a, before ++ events)

section Gives

variable {α β : Type} {before events more : List Event} {a : α} {b : β}

theorem gives_pure (a : α) : Gives (pure a) before a [] := by
  rw [Gives, List.append_nil]
  rfl

theorem gives_record (e : Event) : Gives (record e) before () [e] := rfl

theorem Gives.bind {walk : Walk α} {next : α → Walk β} (h : Gives walk before a events)
    (hnext : Gives (next a) (before ++ events) b more) :
    Gives (walk >>= next) before b (events ++ more) := by
  have hrun : (walk >>= next).run before =
      ExceptT.bindCont next (walk.run before).1 (walk.run before).2 := rfl
  rw [Gives, hrun, h, ← List.append_assoc, ← hnext]
  rfl

end Gives

namespace Choice

variable {c : Choice} {walk : Node → Walk Outcome} {k : Kind} {n m : Node} {s : Slot}
  {before : List Event}

/-- A walk does with a node what the plain recursion does. -/
def Follows (c : Choice) (walk : Node → Walk Outcome) (n : Node) : Prop :=
  ∀ before, ∃ outcome, Gives (walk n) before outcome (c.plain before n).2 ∧
    outcome.apply (.node n) = (c.plain before n).1.map .node

/-- Children one after the other. -/
theorem gives_parts {ns : List Node} (h : ∀ n ∈ ns, c.Follows walk n) (before : List Event) :
    ∃ outcomes, Gives ((ns.map .node).mapM (c.recording.visitPart walk)) before outcomes
        (inTurn c.plain before ns).2 ∧
      outcomes.length = ns.length ∧
      ((ns.map Data.node).zip outcomes).filterMap (fun entry => entry.2.apply entry.1) =
        ((inTurn c.plain before ns).1.filterMap id).map .node := by
  induction ns generalizing before with
  | nil => exact ⟨[], gives_pure _, rfl, rfl⟩
  | cons n ns ih =>
    obtain ⟨outcome, hwalk, happly⟩ := h n List.mem_cons_self before
    obtain ⟨outcomes, hrest, hlength, hzip⟩ :=
      ih (fun n hn => h n (List.mem_cons_of_mem _ hn)) (before ++ (c.plain before n).2)
    refine ⟨outcome :: outcomes, ?_, congrArg (· + 1) hlength, ?_⟩
    · rw [List.map_cons, List.mapM_cons]
      refine hwalk.bind ?_
      rw [← List.append_nil (inTurn c.plain _ ns).2]
      exact hrest.bind (gives_pure _)
    · simp only [List.map_cons, List.zip_cons_cons, List.filterMap_cons, inTurn, happly, hzip]
      cases (c.plain before n).1 <;> rfl

/-- Where no outcome is a change, all is left as it was. -/
theorem filterMap_apply_of_isUnchanged {ds : List Data} {outcomes : List Outcome}
    (hlength : outcomes.length = ds.length) (h : outcomes.all Outcome.isUnchanged) :
    (ds.zip outcomes).filterMap (fun entry => entry.2.apply entry.1) = ds := by
  induction ds generalizing outcomes with
  | nil => rfl
  | cons d ds ih =>
    cases outcomes with
    | nil => cases hlength
    | cons outcome outcomes =>
      rw [List.all_cons, Bool.and_eq_true] at h
      cases outcome with
      | unchanged =>
        exact congrArg (d :: ·) (ih (Nat.succ.inj hlength) h.2)
      | _ => cases h.1

/-- A role whose children were visited: either nothing has changed, or else what has changed are the
children that are left. -/
theorem gives_role (hrole : k.isChildRole s.role) (hs : (shapeAt k s.role).HoldsNodes s.content)
    (h : ∀ n ∈ s.childNodes k, c.Follows walk n) (before : List Event) :
    ∃ change, Gives (c.recording.visitRole walk (s.role, s.parts (shapeAt k s.role))) before change
        (c.plainSlot k before s).2 ∧
      (change = none ∧ (c.plainSlot k before s).1 = s ∨
        ∃ cs : List Node, change = some (s.role.label, cs.map .node) ∧
          (c.plainSlot k before s).1 = s.refilled k cs ∧
          (shapeAt k s.role ≠ .children → cs.length ≤ 1)) := by
  obtain ⟨hparts, hsame, hroom⟩ := Slot.parts_eq hs
  obtain ⟨outcomes, hwalk, hlength, hzip⟩ := gives_parts h before
  have hplain : c.plainSlot k before s =
      (s.refilled k ((inTurn c.plain before (s.childNodes k)).1.filterMap id),
        (inTurn c.plain before (s.childNodes k)).2) := if_pos hrole
  rw [hparts, hplain]
  refine ⟨(Outcome.refill? ((s.childNodes k).map .node) outcomes).map fun ds => (s.role.label, ds),
    ?_, ?_⟩
  · rw [← List.append_nil (inTurn _ _ _).2]
    exact hwalk.bind (gives_pure _)
  · unfold Outcome.refill?
    split
    · rename_i hall
      rw [filterMap_apply_of_isUnchanged (by simpa using hlength) hall] at hzip
      have hleft := List.map_injective_iff.2 (fun _ _ => Data.node.inj) hzip
      exact .inl ⟨rfl, by rw [← hleft, hsame]⟩
    · refine .inr ⟨_, by rw [hzip]; rfl, rfl, fun hne => ?_⟩
      have hfilter := List.length_filterMap_le id (inTurn c.plain before (s.childNodes k)).1
      rw [length_inTurn] at hfilter
      exact Nat.le_trans hfilter (hroom hne)

/-- The slots of a node one after the other. -/
theorem gives_slots {slots : List Slot}
    (hs : ∀ s ∈ slots, k.isChildRole s.role → (shapeAt k s.role).HoldsNodes s.content ∧
      ∀ n ∈ s.childNodes k, c.Follows walk n) (before : List Event) :
    ∃ changes, Gives (((slots.filter fun s => k.isChildRole s.role).map fun s =>
        (s.role, s.parts (shapeAt k s.role))).mapM (c.recording.visitRole walk)) before changes
        (inTurn (c.plainSlot k) before slots).2 ∧
      Refilled k slots (inTurn (c.plainSlot k) before slots).1 (changes.filterMap id) := by
  induction slots generalizing before with
  | nil => exact ⟨[], gives_pure _, .nil⟩
  | cons s slots ih =>
    obtain ⟨changes, hrest, hrefilled⟩ := ih (fun s hmem => hs s (List.mem_cons_of_mem _ hmem))
      (before ++ (c.plainSlot k before s).2)
    by_cases hrole : k.isChildRole s.role
    · obtain ⟨hholds, hfollows⟩ := hs s List.mem_cons_self hrole
      obtain ⟨change, hwalk, hchange⟩ := gives_role hrole hholds hfollows before
      refine ⟨change :: changes, ?_, ?_⟩
      · rw [List.filter_cons, if_pos hrole, List.map_cons, List.mapM_cons]
        refine hwalk.bind ?_
        rw [← List.append_nil (inTurn _ _ slots).2]
        exact hrest.bind (gives_pure _)
      · rcases hchange with ⟨rfl, hkept⟩ | ⟨cs, rfl, hchanged, hroom⟩
        · simp only [inTurn, hkept]
          exact .kept hrefilled
        · simp only [inTurn, hchanged]
          exact .changed hrole hroom hrefilled
    · have hplain : c.plainSlot k before s = (s, []) := if_neg hrole
      rw [hplain, List.append_nil] at hrest hrefilled
      refine ⟨changes, ?_, ?_⟩
      · rw [List.filter_cons, if_neg hrole]
        simpa only [inTurn, hplain, List.append_nil, List.nil_append] using hrest
      · simp only [inTurn, hplain, List.append_nil]
        exact .kept hrefilled

/-- The children of a tree. Replacing those that have changed is never refused. -/
theorem gives_children (hm : m.IsTree) (h : ∀ s ∈ m.childSlots, ∀ n ∈ s.childNodes m.kind,
    c.Follows walk n) (before : List Event) :
    ∃ visited, Gives (c.recording.visitChildren walk m) before visited
        (inTurn (c.plainSlot m.kind) before m.slots).2 ∧
      visited.getD m = m.withSlots (inTurn (c.plainSlot m.kind) before m.slots).1 := by
  obtain ⟨hroles, hholds, -⟩ := hm
  have hnodup : (m.slots.map Slot.role).Nodup := hroles ▸ m.kind.nodup_roles
  obtain ⟨changes, hwalk, hrefilled⟩ := gives_slots (fun s hs hrole =>
    have hmem := List.mem_filter.2 ⟨hs, hrole⟩
    ⟨hholds s hmem, h s hmem⟩) before
  have hchanged := hrefilled.withChildren hnodup
  by_cases hnil : changes.filterMap id = []
  · rw [hnil] at hrefilled
    refine ⟨none, ?_, by rw [hrefilled.eq_of_nil]; cases m; rfl⟩
    rw [← List.append_nil (inTurn _ _ _).2]
    refine hwalk.bind ?_
    rw [hnil]
    exact gives_pure _
  · refine ⟨some _, ?_, rfl⟩
    rw [← List.append_nil (inTurn _ _ _).2]
    refine hwalk.bind ?_
    dsimp only
    rw [if_neg (by simpa using hnil), hchanged]
    exact gives_pure _

/-- What happens when a node is left. -/
theorem gives_leave (m : Node) (outcome : Outcome) : Gives (do
    c.recording.leave m
    return outcome) before outcome [.left m] :=
  (gives_record (.left m)).bind (gives_pure outcome)

/-- A walk that goes deep enough does what the plain recursion does. -/
theorem follows_walkWithin {depth : Nat} (hn : n.IsTree) (hdepth : n.size ≤ depth) :
    c.Follows (c.recording.walkWithin depth) n := by
  -- What replaces a node is no larger, so the children are smaller than the node in any case.
  induction depth generalizing n with
  | zero => exact absurd n.size_pos (Nat.not_lt.2 hdepth)
  | succ depth ih =>
    intro before
    have hbelow : ∀ m : Node, m.IsTree → m.size ≤ n.size → ∃ visited events,
        Gives (c.recording.visitChildren (c.recording.walkWithin depth) m) (before ++ [.entered n])
          visited events ∧
        c.plainBelow before n m =
          (some (visited.getD m), .entered n :: (events ++ [.left (visited.getD m)])) := by
      intro m hm hsize
      obtain ⟨visited, hvisit, hrebuilt⟩ := gives_children hm (fun s hs child hchild => by
        have hlt := Slot.size_lt_of_mem_childNodes (isChildRole_of_mem hs).1 hchild
        obtain ⟨-, -, hbelow⟩ := hm
        exact ih (hbelow s hs child hchild) (by omega)) (before ++ [.entered n])
      exact ⟨visited, _, hvisit, by rw [hrebuilt]; rfl⟩
    have henter : Gives (c.recording.enter n) before (c.step before n) [.entered n] := rfl
    rw [plain_eq]
    cases hstep : c.step before n with
    | skip => exact ⟨.unchanged, henter.bind (by rw [hstep]; exact gives_pure _), rfl⟩
    | drop => exact ⟨.dropped, henter.bind (by rw [hstep]; exact gives_pure _), rfl⟩
    | keep =>
      obtain ⟨visited, events, hvisit, hplain⟩ := hbelow n hn (Nat.le_refl _)
      simp only [hplain]
      cases visited with
      | none =>
        refine ⟨.unchanged, henter.bind ?_, rfl⟩
        rw [hstep]
        exact hvisit.bind (gives_leave n _)
      | some visited =>
        refine ⟨.changed visited, henter.bind ?_, rfl⟩
        rw [hstep]
        exact hvisit.bind (gives_leave visited _)
    | replace m =>
      obtain ⟨hsize, hm⟩ := c.replacement before n m hstep
      obtain ⟨visited, events, hvisit, hplain⟩ := hbelow m hm hsize
      simp only [hplain]
      refine ⟨.changed (visited.getD m), henter.bind ?_, rfl⟩
      rw [hstep]
      exact hvisit.bind (gives_leave (visited.getD m) _)

/-- A visitor gives back what the plain recursion leaves of a tree, and it makes the same calls. The
replacement of children is never refused. -/
theorem visit_recording (c : Choice) {n : Node} (hn : n.IsTree) (reach : Nat)
    (before : List Event) :
    (c.recording.visit reach (.node n)).run before =
      (.ok ((c.plain before n).1.map .node), before ++ (c.plain before n).2) := by
  have hdepth : n.size ≤ (Data.node n).size + reach := Nat.le_add_right _ _
  obtain ⟨outcome, hwalk, happly⟩ := follows_walkWithin (c := c) hn hdepth before
  have hvisit : Gives (c.recording.visit reach (.node n)) before ((c.plain before n).1.map .node)
      ((c.plain before n).2 ++ []) := by
    refine hwalk.bind ?_
    rw [happly]
    exact gives_pure _
  rwa [List.append_nil] at hvisit

/-- Drops fields of one name, skips those of another one, and gives references to types another
name. -/
def pruning : Choice where
  step _ n :=
    if n.kind = .fieldDefinition ∧ n.nameText = "a" then .drop
    else if n.kind = .fieldDefinition ∧ n.nameText = "b" then .skip
    else if n.kind = .namedType then .replace (Grammar.namedTypeNode "Float")
    else .keep
  replacement before n m h := by
    have hm : m = Grammar.namedTypeNode "Float" := by
      split at h
      · cases h
      split at h
      · cases h
      split at h
      · cases h
        rfl
      · cases h
    subst hm
    exact ⟨n.size_pos, (Grammar.isReference_namedTypeNode "Float").wellTyped.isTree⟩

/-- A type with three fields. -/
def threeFields : Grammar.Definition :=
  .type none "T" [] (.object [] [⟨none, "a", [], .named "Int" false, []⟩,
    ⟨none, "b", [], .named "Int" false, []⟩, ⟨none, "c", [], .named "Int" true, []⟩])

/-- What happens to this type: the first field is entered and no more, and so is the second one. -/
theorem visit_recording_threeFields :
    let walk := (pruning.recording.visit 0 (.node threeFields.node)).run []
    walk = (.ok ((pruning.plain [] threeFields.node).1.map .node),
        [] ++ (pruning.plain [] threeFields.node).2) ∧
      walk.2.map (fun
        | .entered n => (true, n.kind)
        | .left n => (false, n.kind)) =
        [(true, .typeDefinition .object), (true, .fieldDefinition), (true, .fieldDefinition),
         (true, .fieldDefinition), (true, .nonNullType), (true, .namedType), (false, .namedType),
         (false, .nonNullType), (false, .fieldDefinition), (false, .typeDefinition .object)] :=
  ⟨visit_recording pruning threeFields.wellTyped_node.isTree 0 [], by rfl⟩

end Choice

end Visitor

end GraphSchema
