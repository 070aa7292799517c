import GraphSchema.Proofs.Check.Report
import GraphSchema.Proofs.Problem

/-!
# Checks side by side

Two checks go through the same nodes, which differ in their metadata. As long as neither looks at
metadata, the second one fails where the first one does, and else finds the same problems and makes
the same calls, with the metadata of its own nodes.

## Main definitions

* `Report.relabel`: a report about nodes with other metadata.
* `Check.Mirrors`: a check does what another one does, on nodes with other metadata.

## Main statements

* `Check.Mirrors.bind`, `Check.Mirrors.both`, `Check.Mirrors.each`: checks in sequence.
-/

namespace GraphSchema

/-- A call on a literal with other metadata. -/
def Call.relabel (f : Metadata → Metadata) (c : Call) : Call :=
  { c with value := c.value.relabel f }

namespace Report

variable {f : Metadata → Metadata} {r q : Report}

/-- A report about nodes with other metadata. -/
def relabel (f : Metadata → Metadata) (r : Report) : Report :=
  ⟨r.problems.map (Problem.relabel f), r.calls.map (Call.relabel f)⟩

theorem relabel_append (r q : Report) : (r ++ q).relabel f = r.relabel f ++ q.relabel f := by
  change relabel f (Report.append r q) = Report.append (r.relabel f) (q.relabel f)
  simp only [relabel, Report.append, List.map_append]

@[simp] theorem isClean_relabel (r : Report) : (r.relabel f).isClean = r.isClean :=
  List.isEmpty_map ..

/-- All that the problems of the report show besides places are texts. -/
def IsWorded (r : Report) : Prop := ∀ p ∈ r.problems, p.IsWorded

theorem isWorded_calls (calls : List Call) : IsWorded ⟨[], calls⟩ := List.forall_mem_nil _

theorem IsWorded.append (hr : r.IsWorded) (hq : q.IsWorded) : (r ++ q).IsWorded :=
  fun p hp => (List.mem_append.1 hp).elim (hr p) (hq p)

end Report

namespace Check

variable {α β : Type} {f : Metadata → Metadata} {a a' b b' : Check}

/-- The second check does what the first one does, on nodes with other metadata, and what it finds
are problems that show texts. -/
structure Mirrors (f : Metadata → Metadata) (c c' : Check) : Prop where
  same : c' = c.map (Report.relabel f)
  worded : ∀ r, c = .ok r → r.IsWorded

theorem mirrors_ok {r : Report} (h : r.IsWorded) : Mirrors f (.ok r) (.ok (r.relabel f)) where
  same := rfl
  worded := by
    intro q hq
    cases hq
    exact h

theorem mirrors_error (e : Failure) : Mirrors f (.error e) (.error e) := ⟨rfl, nofun⟩

theorem mirrors_clean : Mirrors f clean clean := mirrors_ok (Report.isWorded_calls [])

theorem mirrors_found {p p' : Problem} (hp : p.IsWorded) (h : p' = p.relabel f) :
    Mirrors f (found p) (found p') := by
  subst h
  exact mirrors_ok (List.forall_mem_singleton.2 hp)

theorem Mirrors.ite {P : Prop} [Decidable P] (ha : Mirrors f a a') (hb : Mirrors f b b') :
    Mirrors f (if P then a else b) (if P then a' else b') := by
  split
  · exact ha
  · exact hb

theorem mirrors_foundIf {condition : Bool} {p p' : Problem} (hp : p.IsWorded)
    (h : p' = p.relabel f) : Mirrors f (foundIf condition p) (foundIf condition p') :=
  (mirrors_found hp h).ite mirrors_clean

/-- Checks that go on with something that was looked up. -/
theorem Mirrors.bind {g : α → β} {x : Except Failure α} {x' : Except Failure β} {c : α → Check}
    {c' : β → Check} (hx : x' = x.map g) (h : ∀ y, x = .ok y → Mirrors f (c y) (c' (g y))) :
    Mirrors f (x >>= c) (x' >>= c') := by
  subst hx
  cases x with
  | error e => exact mirrors_error e
  | ok y => exact h y rfl

/-- Checks that go on with the same thing. -/
theorem Mirrors.bindSame {x : Except Failure α} {c c' : α → Check}
    (h : ∀ y, x = .ok y → Mirrors f (c y) (c' y)) : Mirrors f (x >>= c) (x >>= c') := by
  cases x with
  | error e => exact mirrors_error e
  | ok y => exact h y rfl

/-- Checks that go on with what other checks have found. -/
theorem Mirrors.andThen {c c' : Report → Check} (ha : Mirrors f a a')
    (h : ∀ r, a = .ok r → r.IsWorded → Mirrors f (c r) (c' (r.relabel f))) :
    Mirrors f (a >>= c) (a' >>= c') :=
  .bind ha.same fun r hr => h r hr (ha.worded r hr)

/-- Checks that are carried out behind earlier reports. -/
theorem Mirrors.after {earlier : Report} (hb : Mirrors f b b') (he : earlier.IsWorded) :
    Mirrors f (b >>= fun r => return earlier ++ r)
      (b' >>= fun r => return earlier.relabel f ++ r) :=
  hb.andThen fun r _ hr => by
    rw [← Report.relabel_append]
    exact mirrors_ok (he.append hr)

theorem Mirrors.both (ha : Mirrors f a a') (hb : Mirrors f b b') :
    Mirrors f (both a b) (both a' b') :=
  ha.andThen fun _ _ hr => hb.after hr

theorem Mirrors.each {xs : List α} {g : α → β} {check : α → Check} {check' : β → Check}
    (h : ∀ x ∈ xs, Mirrors f (check x) (check' (g x))) :
    Mirrors f (each xs check) (each (xs.map g) check') := by
  induction xs with
  | nil => exact mirrors_clean
  | cons x xs ih =>
    rw [List.map_cons, each_cons, each_cons]
    exact (h x List.mem_cons_self).both (ih fun y hy => h y (List.mem_cons_of_mem _ hy))

/-- Nodes that an attribute holds. -/
theorem Mirrors.eachNode {ns : List Node} {check check' : Data → Check}
    (h : ∀ n ∈ ns, Mirrors f (check (.node n)) (check' (.node (n.relabel f)))) :
    Mirrors f (Check.each (ns.map Data.node) check)
      (Check.each ((ns.map Data.node).map (Data.relabel f)) check') := by
  have hnodes : (ns.map Data.node).map (Data.relabel f) =
      (ns.map (Node.relabel f)).map Data.node := by simp
  rw [hnodes, each_map, each_map]
  exact .each h

end Check

end GraphSchema
