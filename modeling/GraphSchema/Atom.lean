import GraphSchema.Number.Shortest
import GraphSchema.Text.Quoted

/-!
# Atoms

Data without parts: absent values, truth values, numbers and texts.

## Main definitions

* `Atom`: an atom.
* `Atom.key`, `Atom.same`: equality across kinds of numbers.
* `Atom.display`, `Atom.quoted`: the written forms.
* `Atom.typeName`: the name of the kind of an atom.
-/

namespace GraphSchema

/-- A datum without parts. -/
inductive Atom where
  | null
  | bool (b : Bool)
  | int (n : Int)
  | float (x : Binary64)
  | text (t : Text)
deriving DecidableEq

namespace Atom

instance : Inhabited Atom := ⟨null⟩

instance : Coe Text Atom := ⟨text⟩

/-- What an atom is told apart by: truth values count as zero and one, and floating-point numbers
without a fractional part as integers. -/
def key : Atom → Atom
  | bool b => int (if b then 1 else 0)
  | float x => if x.isWhole then int (x.truncate?.getD 0) else float x
  | a => a

/-- Whether two atoms are equal. -/
def same (a b : Atom) : Bool := a.key = b.key

/-- The form that shows what an atom is: texts are quoted. -/
def quoted : Atom → Text
  | null => "None"
  | bool b => if b then "True" else "False"
  | int n => .ofInt n
  | float x => x.display
  | text t => t.quoted

/-- The form in which an atom is written into a message: a text stands as it is. -/
def display : Atom → Text
  | text t => t
  | a => a.quoted

/-- The name of the kind of an atom in messages. -/
def typeName : Atom → Text
  | null => "NoneType"
  | bool _ => "bool"
  | int _ => "int"
  | float _ => "float"
  | text _ => "str"

/-- Whether an atom counts as true: absent values, zeros and the empty text do not. -/
def truth : Atom → Bool
  | null => false
  | bool b => b
  | int n => n ≠ 0
  | float x => x.isNonzero
  | text t => t ≠ []

/-- The text, if the atom is one. -/
def text? : Atom → Option Text
  | text t => some t
  | _ => none

theorem same_text (s t : Text) : same (.text s) (.text t) = decide (s = t) := by
  simp [same, key]

end Atom

end GraphSchema
