import GraphSchema.Scalar.Basic
import GraphSchema.Table

/-!
# Wirings

A wiring gives a schema what its documents cannot say: scalars with the functions that read their
literals, and coercers that look at the arguments of directives.

## Main definitions

* `Wiring`: a wiring.
* `Wiring.registerScalar`, `Wiring.registerCoercer`: registration.
* `Wiring.scalar?`, `Wiring.coercer?`: lookup.
* `Wiring.merge`: all of another wiring registered.
* `Wiring.toRecord`: what a wiring holds.
-/

namespace GraphSchema

/-- Scalars by name, and coercers by directive and argument. -/
structure Wiring where
  scalars : Table Text Scalar
  coercers : Table Text (Table Text Callback)

namespace Wiring

/-- Nothing is registered. -/
def empty : Wiring := ⟨[], []⟩

instance : Inhabited Wiring := ⟨empty⟩

/-- Registers a scalar. A name that is taken is refused unless it may be overridden. -/
def registerScalar (w : Wiring) (s : Scalar) (override : Bool) : Except Failure Wiring :=
  if w.scalars.has s.name ∧ !override then
    .error (.badValue ("Scalar \"" ++ s.name ++ "\" is already registered."))
  else .ok { w with scalars := w.scalars.put s.name s }

/-- The scalar of a given name; a registered one comes before one that is always there. -/
def scalar? (w : Wiring) (name : Text) : Option Scalar :=
  match w.scalars.get? name with
  | some s => some s
  | none => Scalar.builtins.find? fun s => s.name = name

/-- The coercers of a directive by argument. -/
def coercersOf (w : Wiring) (directive : Text) : Table Text Callback :=
  (w.coercers.get? directive).getD []

/-- Registers a coercer. An argument that has one is refused unless it may be overridden. -/
def registerCoercer (w : Wiring) (directive argument : Text) (c : Callback) (override : Bool) :
    Except Failure Wiring :=
  if (w.coercersOf directive).has argument ∧ !override then
    .error (.badValue ("Argument \"" ++ argument ++ "\" of directive \"@" ++ directive
      ++ "\" already has a coercer."))
  else
    .ok { w with coercers := w.coercers.put directive ((w.coercersOf directive).put argument c) }

/-- The coercer of an argument of a directive. -/
def coercer? (w : Wiring) (directive argument : Text) : Option Callback :=
  (w.coercersOf directive).get? argument

/-- The directive and the argument that a path names: two names with a point between them, and signs
in front. -/
def readPath (path : Text) : Except Failure (Text × Text) :=
  match Text.splitOn '.' (path.dropWhile fun c => c = '@') with
  | [directive, argument] => .ok (directive, argument)
  | _ => .error (.badValue ("Invalid argument path \"" ++ path
      ++ "\". Argument path must of the form \"\x7bdirective\x7d.\x7bargument\x7d\""))

/-- Applies registrations in turn up to the first that is refused; those before it stay. -/
def registerAll (w : Wiring) : List (Wiring → Except Failure Wiring) → Wiring × Option Failure
  | [] => (w, none)
  | step :: rest =>
    match step w with
    | .ok w => registerAll w rest
    | .error f => (w, some f)

/-- The registrations that make up a wiring: first its scalars, then its coercers. -/
def registrations (w : Wiring) (override : Bool) : List (Wiring → Except Failure Wiring) :=
  w.scalars.values.map (fun s w => w.registerScalar s override)
    ++ w.coercers.flatMap fun (directive, coercers) =>
      coercers.map fun (argument, c) w => w.registerCoercer directive argument c override

/-- Registers all of another wiring, up to the first registration that is refused. -/
def merge (w other : Wiring) (override : Bool) : Wiring × Option Failure :=
  w.registerAll (other.registrations override)

/-- What a wiring holds, as a record. -/
def toRecord (w : Wiring) : Data :=
  let labels (coercers : Table Text Callback) : Data :=
    .list (coercers.map fun entry => .list [.text entry.1, .text entry.2.label])
  .record [
    Data.field "scalars" (.list (w.scalars.map fun entry =>
      .list (.text entry.1 :: entry.2.summary))),
    Data.field "coercers" (.list (w.coercers.map fun entry =>
      .list [.text entry.1, labels entry.2]))]

end Wiring

end GraphSchema
