import GraphSchema.Node.Call
import GraphSchema.Node.Equality
import GraphSchema.Node.Record
import GraphSchema.Node.Visitor

/-!
# Editing by rules

A list of rules says what becomes of the nodes of a tree. The first rule that fits a node is applied
when the node is entered. Which nodes were entered and left, and in what order, is recorded.

## Main definitions

* `Edit.Rule`: a kind of nodes, a word that a node must have, and what to do with the node.
* `Edit.Scope`: which nodes the rules are tried on.
* `Edit.run`: applies rules to a tree.
-/

namespace GraphSchema

namespace Edit

/-- What a rule does with a node. -/
inductive Action where
  | keep
  | remove
  | skip
  | replace (n : Node)
  | set (values : List Node.Assignment)
  | add (role : Text) (ds : List Data)

/-- A rule for the nodes with a given tag, or for all nodes; `word`, if there is one, is what must
tell the node apart. -/
structure Rule where
  tag : Option Text
  word : Option Data
  action : Action

/-- Which nodes the rules are tried on: none, all, or those whose tags are named by rules. -/
inductive Scope where
  | nothing
  | everything
  | named
deriving DecidableEq

/-- A node that was entered or left. -/
inductive Event where
  | entered (n : Node)
  | left (n : Node)

/-- The record of an event; of a node that was left it tells how many children each role has. -/
def Event.toRecord : Event → Data
  | entered n => .list [.text "enter", .text n.kind.tag, n.brief]
  | left n =>
    .list [.text "leave", .text n.kind.tag, n.brief,
      .list (n.namedChildren.map fun entry => .int entry.2.length)]

/-- A walk that records events and can fail. -/
abbrev Walk := ExceptT Failure (StateM (List Event))

/-- Whether a rule fits a node. The first word of the node counts. -/
def Rule.fits (rule : Rule) (n : Node) : Bool :=
  rule.tag.all (· = n.kind.tag)
    && rule.word.all fun d => n.words.head?.any fun entry => d.same entry.2

/-- What becomes of a node by an action. -/
def Action.step (action : Action) (n : Node) : Except Node.Fault Visitor.Step :=
  match action with
  | keep => .ok .keep
  | remove => .ok .drop
  | skip => .ok .skip
  | replace m => .ok (.replace m)
  | set values => (n.transform (Node.Call.set values).run.after).map .replace
  | add role ds => (n.transform (Node.Call.add role ds).run.after).map .replace

/-- How many nodes an action can bring in. -/
def Action.size : Action → Nat
  | replace n => n.size
  | set values => values.foldr (fun v size => (match v with
      | .slot s => s.size
      | _ => 0) + size) 0
  | add _ ds => itemsSize ds
  | _ => 0

/-- What becomes of a node by the first rule that fits. -/
def step (rules : List Rule) (n : Node) : Except Node.Fault Visitor.Step :=
  match rules.find? (·.fits n) with
  | some rule => rule.action.step n
  | none => .ok .keep

/-- Whether a rule names the tag of a node. -/
def names (rules : List Rule) (n : Node) : Bool := rules.any fun rule => rule.tag = some n.kind.tag

/-- Whether rules are tried on a node. A node of no particular kind has no place among nodes that
are told apart by their tags. -/
def applies (scope : Scope) (rules : List Rule) (n : Node) : Except Node.Fault Bool :=
  match scope with
  | .nothing => .ok false
  | .everything => .ok true
  | .named =>
    if names rules n then .ok true
    else if n.kind.tag = (Kind.bare .node).tag then .error .noAttribute
    else .ok false

/-- Records an event. -/
def record (e : Event) : Walk Unit := modify fun events => events ++ [e]

/-- The visitor that applies rules. Without rules, what is absent stays so. -/
def visitor (scope : Scope) (rules : List Rule) : Visitor Walk where
  enter n := do
    if ← liftExcept (applies scope rules n) then
      record (.entered n)
      liftExcept (step rules n)
    else return .keep
  leave n := do
    if ← liftExcept (applies scope rules n) then record (.left n)
  stray d := if scope = .nothing ∧ d.isNull then return .dropped else throw .noAttribute
  refuse fault := throw fault.failure
where
  /-- A fault ends the walk. -/
  liftExcept {α : Type} (x : Except Node.Fault α) : Walk α :=
    match x with
    | .ok a => return a
    | .error fault => throw fault.failure

/-- Applies rules to a tree: what is left of it, and what happened. -/
def run (scope : Scope) (rules : List Rule) (d : Data) :
    Except Failure (Option Data) × List Event :=
  let reach := rules.foldr (fun rule size => rule.action.size + size) 0
  ((visitor scope rules).visit reach d).run []

end Edit

end GraphSchema
