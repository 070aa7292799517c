import GraphSchema.Text.Case

/-!
# Patterns

Patterns of texts: classes of code points, repetition and alternatives, and marks for the start and
the end of the text. A pattern is matched from the start of a text and may leave a rest.

## Main definitions

* `Pattern`: patterns.
* `Pattern.Place`: a place in a text, with what is left from there.
* `Pattern.reach`: the places at which a match can end.
* `Pattern.accepts`: whether a text begins with what a pattern stands for.
-/

namespace GraphSchema

namespace Pattern

/-- A member of a class: a code point, or all code points of a range. -/
inductive Member where
  | one (c : CodePoint)
  | range (first last : CodePoint)
deriving DecidableEq

/-- A class of code points: those that are members, or those that are not. -/
structure Class where
  negated : Bool
  members : List Member
deriving DecidableEq

end Pattern

/-- A pattern. -/
inductive Pattern where
  | empty
  | any
  | oneOf (k : Pattern.Class)
  | startMark
  | endMark
  | both (p q : Pattern)
  | either (p q : Pattern)
  | repeated (p : Pattern) (least : Nat) (most : Option Nat)
deriving DecidableEq

namespace Pattern

/-- The pattern of a single code point. -/
def single (c : CodePoint) : Pattern := .oneOf ⟨false, [.one c]⟩

/-- Whether case matters. -/
inductive Sensitivity where
  | exact
  | ignoringCase
deriving DecidableEq

/-- The code points that count as a given one. -/
def Sensitivity.variants (s : Sensitivity) (c : CodePoint) : Text :=
  match s with
  | exact => [c]
  | ignoringCase => c.variants

/-- The number of the first code point beyond the basic plane. -/
def basicPlaneEnd : Nat := 0x10000

/-- Whether a code point counts as a member of a class. Among other members, a code point beyond
the basic plane counts as a small letter. -/
def Member.has (m : Member) (alone : Bool) (s : Sensitivity) (c : CodePoint) : Bool :=
  match m with
  | one d =>
    if s = .ignoringCase ∧ !alone ∧ basicPlaneEnd ≤ d.val then c.small = d else d ∈ s.variants c
  | range first last => (s.variants c).any fun d => first.val ≤ d.val && d.val ≤ last.val

/-- Whether a code point belongs to a class. -/
def Class.has (k : Class) (s : Sensitivity) (c : CodePoint) : Bool :=
  k.members.any (fun m => m.has (k.members.length = 1) s c) != k.negated

/-- A place in a text: what is left from there, and how long that is. -/
structure Place where
  left : Nat
  rest : Text

/-- The start of a text. -/
def Place.start (t : Text) : Place := ⟨t.length, t⟩

/-- The next place, if the code point between the two passes a test. -/
def Place.next? (test : CodePoint → Bool) (x : Place) : Option Place :=
  match x.rest with
  | [] => none
  | c :: rest => if test c then some ⟨x.left - 1, rest⟩ else none

/-- The places of two lists; all lists of places run backwards from the end of the text. -/
def union : List Place → List Place → List Place
  | [], ys => ys
  | xs, [] => xs
  | x :: xs, y :: ys =>
    if x.left < y.left then x :: union xs (y :: ys)
    else if y.left < x.left then y :: union (x :: xs) ys
    else x :: union xs ys
termination_by xs ys => xs.length + ys.length

/-- The places of a list that are not in another one. -/
def without : List Place → List Place → List Place
  | [], _ => []
  | x :: xs, ys =>
    let later := ys.dropWhile fun y => y.left < x.left
    if later.head?.any fun y => y.left = x.left then without xs later else x :: without xs later

/-- The places after exactly `n` steps. -/
def steps (step : List Place → List Place) : (n : Nat) → List Place → List Place
  | 0, xs => xs
  | n + 1, xs => if xs.isEmpty then [] else steps step n (step xs)

/-- The places that were reached, and those that up to `n` steps reach from the ones reached
last. -/
def spread (step : List Place → List Place) : (n : Nat) → (reached last : List Place) → List Place
  | 0, reached, _ => reached
  | n + 1, reached, last =>
    match without (step last) reached with
    | [] => reached
    | found => spread step n (union found reached) found

/-- The places at which matches that begin at given places can end, in a text of a given length. A
repetition without an upper bound finds no new place after as many rounds as there are places. -/
def reach (s : Sensitivity) (length : Nat) : Pattern → List Place → List Place
  | .empty, xs => xs
  | .any, xs => xs.filterMap (Place.next? fun c => c ≠ '\n')
  | .oneOf k, xs => xs.filterMap (Place.next? (k.has s))
  | .startMark, xs => xs.filter fun x => x.left = length
  | .endMark, xs => xs.filter fun x => x.rest = [] ∨ x.rest = "\n"
  | .both p q, xs => reach s length q (reach s length p xs)
  | .either p q, xs => union (reach s length p xs) (reach s length q xs)
  | .repeated p least most, xs =>
    let start := steps (reach s length p) least xs
    spread (reach s length p) ((most.map (· - least)).getD (length + 1)) start start

/-- Whether a text begins with what a pattern stands for. -/
def accepts (p : Pattern) (s : Sensitivity) (t : Text) : Bool :=
  !(p.reach s t.length [.start t]).isEmpty

end Pattern

end GraphSchema
