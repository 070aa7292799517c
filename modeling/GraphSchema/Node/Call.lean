import GraphSchema.Node.Builder

/-!
# Calls on builders

Calls change a builder one after the other. A call that fails raises a fault, and what it did to the
builder before stays done. Whoever catches the fault can go on with the builder.

## Main definitions

* `Node.Building`: work on a builder.
* `Node.Call`: calls, with `run` and `attempt`.
* `Node.Building.after`: the builder that work leads to.
-/

namespace GraphSchema.Node

/-- Work on a builder. It can fail, and what was done before that stays done. -/
abbrev Building := EStateM Fault Builder

namespace Building

/-- Refuses a value that nodes of the kind have no attribute for. -/
def check (v : Assignment) : Building Unit := do
  let b ← getThe Builder
  match v.unknown? b.kind with
  | some name => throw (.unknownAttribute name b.kind)
  | none => return

/-- Work that is done in one step. -/
def step (change : Builder → Except Fault Builder) : Building Unit := do
  match change (← getThe Builder) with
  | .ok b => set b
  | .error fault => throw fault

/-- The builder that work leads to. -/
def after (work : Building Unit) (b : Builder) : Except Fault Builder :=
  match work.run b with
  | .ok _ b' => .ok b'
  | .error fault _ => .error fault

end Building

/-- A call: values for attributes, data to append to what an attribute holds, or further data under
a key. -/
inductive Call where
  | set (values : List Assignment)
  | add (name : Text) (ds : List Data)
  | putData (key : Text) (value : Atom)

namespace Call

/-- What a call does. All values are checked before the first one is taken over. -/
def run : Call → Building Unit
  | set values => do
    values.forM Building.check
    values.forM fun v => modify fun b => b.assign v
  | add name ds => Building.step fun b => b.add name ds
  | putData key value => modify fun b => b.putData key value

/-- A call whose fault is caught. -/
def attempt (c : Call) : Building Unit := tryCatch c.run fun _ => pure ⟨⟩

end Call

end GraphSchema.Node
