import GraphSchema.Text.Basic

/-!
# Failures

What an operation raises when it cannot be carried out. A failure has a class, and a message where
the message belongs to this library.

## Main definitions

* `Failure`: a class and a message.
* `Failure.isRejection`: the failures by which a scalar or a coercer turns a literal down.
-/

namespace GraphSchema

namespace Failure

/-- The classes of failures. -/
inductive Class where
  | value
  | unicode
  | type
  | attribute
  | key
  | overflow
  | runtime
  | scalarParsing
  | general
deriving DecidableEq

end Failure

/-- A class and, where there is one, a message. -/
structure Failure where
  category : Failure.Class
  message? : Option Text
deriving DecidableEq

namespace Failure

/-- Bad values, bad types and refused scalars turn a literal down; other failures end the whole
operation. -/
def isRejection (f : Failure) : Bool :=
  match f.category with
  | .value | .unicode | .type | .scalarParsing => true
  | _ => false

/-- The message, or nothing. -/
def text (f : Failure) : Text := f.message?.getD []

/-- A bad value. -/
def badValue (message : Text) : Failure := ⟨.value, some message⟩

/-- A bad type. -/
def badType (message : Text) : Failure := ⟨.type, some message⟩

/-- Something of a kind that does not fit. -/
def unfit : Failure := ⟨.type, none⟩

/-- An attribute that is not there. -/
def noAttribute : Failure := ⟨.attribute, none⟩

/-- There is no integer for what is not a number. -/
def notANumber : Failure := badValue "cannot convert float NaN to integer"

/-- A number is out of the range of a format. -/
def outOfRange : Failure := ⟨.overflow, none⟩

end Failure

end GraphSchema
