import GraphSchema.Registry

/-!
# Merging a registry with itself

Merging a registry adds its declarations in order to another one. If both are the same registry, the
list of declarations is walked while it grows: a declaration that is accepted is appended to it.

## Main definitions

* `Registry.Walk`: how far a registry has been merged with itself.
* `Registry.Walk.step`, `Registry.Walk.run`: one turn of the loop, and several.
-/

namespace GraphSchema

namespace Registry

/-- How far a registry has been merged with itself: the registry as it is now, the position in the
list of its declarations, and the problems so far. -/
structure Walk where
  registry : Registry
  position : Nat
  problems : List Problem

namespace Walk

/-- What a turn of the loop leads to: another one, the end of the loop, or a failure. -/
inductive Turn where
  | next (w : Walk)
  | finished (r : Registry) (ps : List Problem)
  | failed (f : Failure)

/-- In front of the first declaration. -/
def start (r : Registry) : Walk := ⟨r, 0, []⟩

/-- Adds the declaration at the position to the registry that it was taken from. -/
def step (w : Walk) : Turn :=
  match w.registry.definitions[w.position]? with
  | none => .finished w.registry w.problems
  | some n =>
    match w.registry.add n with
    | .ok r => .next ⟨r, w.position + 1, w.problems⟩
    | .error (.problem p) => .next ⟨w.registry, w.position + 1, w.problems ++ [p]⟩
    | .error (.failure f) => .failed f

/-- So many turns, or as many as there are. -/
def run : Nat → Walk → Turn
  | 0, w => .next w
  | turns + 1, w =>
    match w.step with
    | .next w => run turns w
    | last => last

end Walk

end Registry

end GraphSchema
