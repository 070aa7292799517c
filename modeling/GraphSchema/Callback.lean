import GraphSchema.Node.Record
import GraphSchema.Number.Integer

/-!
# Callbacks

Functions from outside that are given literals: they give back a datum or fail. Each has a label, by
which its calls are recorded.

## Main definitions

* `Callback`: a labelled function.
* `Callback.accepting`, `Callback.refusing`, `Callback.ranging`: callbacks that accept everything,
  refuse everything, and accept integers in a range.
* `Call`: a call of a callback.
-/

namespace GraphSchema

/-- A function with a label. It is given literals, or whatever stands in the place of one. -/
structure Callback where
  label : Text
  run : Data → Except Failure Data

/-- A call: the label of a callback, and what it was given. -/
structure Call where
  label : Text
  value : Data

/-- The record of a call. -/
def Call.toRecord (c : Call) : Data := .list [.text c.label, c.value.brief]

namespace Callback

/-- Accepts every literal and gives back the tag of its kind. -/
def accepting (label : Text) : Callback where
  label
  run
    | .node n => .ok (.text n.kind.tag)
    | _ => .error .noAttribute

/-- Fails on every literal. -/
def refusing (label : Text) (f : Failure) : Callback := ⟨label, fun _ => .error f⟩

/-- The integer that a datum stands for. -/
def readInteger (d : Data) : Except Failure Int :=
  let unfit := .badType ("int() argument must be a string, a bytes-like object or a real "
    ++ "number, not '" ++ d.typeName ++ "'")
  match d with
  | .int n => .ok n
  | .bool b => .ok (if b then 1 else 0)
  | .text t => (Numeral.readInteger t).mapError fun fault => .badValue (fault.message t)
  | .float .nan => .error .notANumber
  | .float (.infinity _) => .error .outOfRange
  | .float x => .ok (x.truncate?.getD 0)
  | _ => .error unfit

/-- Accepts integer literals from `least` to `most`. -/
def ranging (label : Text) (least most : Int) : Callback where
  label
  run
    | .node (.mk .intValue info slots) => do
      let n := Node.mk .intValue info slots
      let value ← readInteger (n.content .value)
      if value < least ∨ most < value then throw (.badValue "custom: out of range")
      return .text n.kind.tag
    | d => throw (.badType ("custom: expected IntValue, got " ++ d.typeName))

/-- A call of a callback. -/
def call (c : Callback) (d : Data) : Call := ⟨c.label, d⟩

end Callback

end GraphSchema
