import Mathlib.Algebra.GroupWithZero.Nat
import Mathlib.Data.List.Forall2
import GraphSchema.Check.Report

/-!
# What checks find

A check may fail altogether. One that does not finds problems, and what it finds in several things
comes from what it finds in each of them.

## Main definitions

* `Problem.isMismatch`: a value does not fit its type.
* `Check.Finds`: what the check finds has a property, and under an assumption it does not fail.
* `Check.Decides`: the check finds nothing if and only if a statement holds.
* `Check.Counts`: how many problems of a sort the check finds.
* `Check.Only`: all problems that the check finds and all calls that it makes have properties.
* `Check.Logs`: the calls that the check makes, and the problems of a sort that it finds.
* `Check.Includes`: a check is carried out as a part of another one.

## Main statements

* `Check.each_append`, `Check.each_flatMap`: checking several lists one after the other.
* `Check.Finds.each`: what is found comes in groups, one for each of the things that are checked.
-/

namespace GraphSchema

/-- The problem is that a value does not fit its type. -/
def Problem.isMismatch : Problem → Bool
  | badValue _ _ _ _ _ _ _ => true
  | _ => false

namespace Report

theorem problems_append (a b : Report) : (a ++ b).problems = a.problems ++ b.problems := rfl

theorem isClean_iff {r : Report} : r.isClean ↔ r.problems = [] := List.isEmpty_iff

theorem append_assoc (a b c : Report) : a ++ b ++ c = a ++ (b ++ c) := by
  change Report.append (Report.append a b) c = Report.append a (Report.append b c)
  simp only [Report.append, List.append_assoc]

end Report

namespace Check

variable {α β : Type} {T : Prop} {c a b : Check}

/-- What the check finds, if it is carried out, has a property; under an assumption it is carried
out. -/
structure Finds (T : Prop) (c : Check) (S : List Problem → Prop) : Prop where
  sound : ∀ report, c = .ok report → S report.problems
  total : T → ∃ report, c = .ok report

/-- The check finds nothing if a statement holds, and values that do not fit otherwise. -/
def Decides (T : Prop) (c : Check) (P : Prop) : Prop :=
  Finds T c fun ps => (ps = [] ↔ P) ∧ ∀ p ∈ ps, p.isMismatch

/-- The check finds a number of problems of a sort. -/
def Counts (T : Prop) (sort : Problem → Bool) (c : Check) (n : Nat) : Prop :=
  Finds T c fun ps => ps.countP sort = n

/-- All that the check finds, if it is carried out, has a property, and so have all calls that it
makes. -/
structure Only (S : Problem → Prop) (K : Call → Prop) (c : Check) : Prop where
  problems : ∀ report, c = .ok report → ∀ p ∈ report.problems, S p
  calls : ∀ report, c = .ok report → ∀ call ∈ report.calls, K call

/-- The check is carried out. It makes these calls, and the problems of a sort that it finds are
these. -/
def Logs (sort : Problem → Bool) (c : Check) (calls : List Call) (ps : List Problem) : Prop :=
  ∃ report, c = .ok report ∧ report.calls = calls ∧ report.problems.filter sort = ps

/-- Whenever the one check is carried out, so is the other one, and all that this finds is found. -/
def Includes (c a : Check) : Prop :=
  ∀ report, c = .ok report → ∃ part, a = .ok part ∧ part.problems ⊆ report.problems

/-! ## One after the other -/

theorem clean_both (a : Check) : both clean a = a := by
  cases a <;> rfl

theorem both_assoc (a b c : Check) : both (both a b) c = both a (both b c) := by
  cases a with
  | error f => rfl
  | ok r =>
    cases b with
    | error f => rfl
    | ok q =>
      cases c with
      | error f => rfl
      | ok p => exact congrArg Except.ok (Report.append_assoc r q p)

theorem each_cons (x : α) (xs : List α) (check : α → Check) :
    each (x :: xs) check = both (check x) (each xs check) := by
  rw [each, List.mapM_cons, both, each]
  cases check x with
  | error f => rfl
  | ok r => cases xs.mapM check <;> rfl

theorem each_append (xs ys : List α) (check : α → Check) :
    each (xs ++ ys) check = both (each xs check) (each ys check) := by
  induction xs with
  | nil => exact (clean_both _).symm
  | cons x xs ih => rw [List.cons_append, each_cons, each_cons, ih, both_assoc]

theorem each_flatMap (f : β → List α) (xs : List β) (check : α → Check) :
    each (xs.flatMap f) check = each xs fun x => each (f x) check := by
  induction xs with
  | nil => rfl
  | cons x xs ih => rw [List.flatMap_cons, each_append, each_cons, ih]

theorem each_congr {xs : List α} {check other : α → Check} (h : ∀ x ∈ xs, check x = other x) :
    each xs check = each xs other := by
  induction xs with
  | nil => rfl
  | cons x xs ih =>
    have hxs := ih fun y hy => h y (List.mem_cons_of_mem _ hy)
    rw [each_cons, each_cons, h x List.mem_cons_self, hxs]

/-- Checking things that are known to be in a list. -/
theorem each_attach (xs : List α) (check : α → Check) :
    (each xs.attach fun x => check x.1) = each xs check := by
  have h : (xs.attach.mapM fun x => check x.1) = xs.mapM check := by
    change xs.attach.mapM (check ∘ Subtype.val) = _
    rw [← List.mapM_map, List.attach_map_subtype_val]
  rw [each, h, each]

theorem each_map (f : β → α) (xs : List β) (check : α → Check) :
    each (xs.map f) check = each xs fun x => check (f x) := by
  rw [each, List.mapM_map, each]
  rfl

/-! ## Checks as parts of others -/

theorem Includes.refl (c : Check) : c.Includes c :=
  fun report h => ⟨report, h, List.Subset.refl _⟩

theorem Includes.trans (hcb : c.Includes b) (hba : b.Includes a) : c.Includes a := by
  intro report hreport
  obtain ⟨q, hq, hqr⟩ := hcb report hreport
  obtain ⟨p, hp, hpq⟩ := hba q hq
  exact ⟨p, hp, List.Subset.trans hpq hqr⟩

theorem includes_both (a b : Check) : (both a b).Includes a ∧ (both a b).Includes b := by
  cases a with
  | error f => constructor <;> intro report hreport <;> cases hreport
  | ok r =>
    cases b with
    | error f => constructor <;> intro report hreport <;> cases hreport
    | ok q =>
      constructor
      · intro report hreport
        cases hreport
        exact ⟨r, rfl, List.subset_append_left _ _⟩
      · intro report hreport
        cases hreport
        exact ⟨q, rfl, List.subset_append_right _ _⟩

theorem includes_each {xs : List α} {check : α → Check} {x : α} (hx : x ∈ xs) :
    (each xs check).Includes (check x) := by
  induction xs with
  | nil => cases hx
  | cons y ys ih =>
    rw [each_cons]
    rcases List.mem_cons.1 hx with rfl | hx
    · exact (includes_both _ _).1
    · exact (includes_both _ _).2.trans (ih hx)

/-! ## What is found -/

theorem finds_ok {S : List Problem → Prop} {report : Report} (h : S report.problems) :
    Finds T (.ok report) S where
  sound := by
    intro r hr
    cases hr
    exact h
  total := fun _ => ⟨report, rfl⟩

/-- A check that fails if the assumption does not hold. -/
theorem finds_error {S : List Problem → Prop} {f : Failure} (h : ¬T) : Finds T (.error f) S where
  sound := by
    intro r hr
    cases hr
  total := fun hT => absurd hT h

theorem Finds.imp {S U : List Problem → Prop} (h : Finds T c S) (hSU : ∀ ps, S ps → U ps) :
    Finds T c U where
  sound := fun report hc => hSU _ (h.sound report hc)
  total := h.total

theorem Finds.both {S U V : List Problem → Prop} (ha : Finds T a S) (hb : Finds T b U)
    (hV : ∀ ps qs, S ps → U qs → V (ps ++ qs)) : Finds T (both a b) V := by
  constructor
  · intro report hreport
    cases a with
    | error f => cases hreport
    | ok r =>
      cases b with
      | error f => cases hreport
      | ok q =>
        cases hreport
        exact hV _ _ (ha.sound r rfl) (hb.sound q rfl)
  · intro hT
    obtain ⟨r, rfl⟩ := ha.total hT
    obtain ⟨q, rfl⟩ := hb.total hT
    exact ⟨r ++ q, rfl⟩

theorem Finds.only {S : List Problem → Prop} {U : Problem → Prop} {K : Call → Prop}
    (h : Finds T c S) (hU : Only U K c) : Finds T c fun ps => S ps ∧ ∀ p ∈ ps, U p where
  sound := fun report hc => ⟨h.sound report hc, hU.problems report hc⟩
  total := h.total

theorem finds_foundIf (condition : Bool) (p : Problem) :
    Finds T (foundIf condition p) (· = if condition then [p] else []) := by
  cases condition <;> exact finds_ok rfl

/-- What is found in things one after the other comes in groups, one for each of them. -/
theorem Finds.each {xs : List α} {check : α → Check} {S : α → List Problem → Prop}
    (h : ∀ x ∈ xs, Finds T (check x) (S x)) :
    Finds T (each xs check) fun ps => ∃ groups, ps = groups.flatten ∧ xs.Forall₂ S groups := by
  induction xs with
  | nil => exact finds_ok ⟨[], rfl, .nil⟩
  | cons x xs ih =>
    rw [each_cons]
    refine (h x List.mem_cons_self).both (ih fun y hy => h y (List.mem_cons_of_mem _ hy)) ?_
    rintro ps _ hps ⟨groups, rfl, hgroups⟩
    exact ⟨ps :: groups, rfl, .cons hps hgroups⟩

/-! ## Properties of all problems and calls -/

section Only

variable {S U : Problem → Prop} {K L : Call → Prop}

theorem Only.imp (h : Only S K c) (hS : ∀ p, S p → U p) (hK : ∀ call, K call → L call) :
    Only U L c where
  problems := fun report hc p hp => hS p (h.problems report hc p hp)
  calls := fun report hc call hcall => hK call (h.calls report hc call hcall)

theorem only_ok {report : Report} (h : ∀ p ∈ report.problems, S p)
    (hcalls : ∀ call ∈ report.calls, K call) : Only S K (.ok report) where
  problems := by
    intro r hr
    cases hr
    exact h
  calls := by
    intro r hr
    cases hr
    exact hcalls

theorem only_error {f : Failure} : Only S K (.error f) where
  problems := nofun
  calls := nofun

theorem only_clean : Only S K clean := only_ok (by simp [Report.none]) (by simp [Report.none])

theorem only_found {p : Problem} (h : S p) : Only S K (found p) :=
  only_ok (by simpa [Report.ofProblem] using h) (by simp [Report.ofProblem])

theorem Only.ite {P : Prop} [Decidable P] (ha : Only S K a) (hb : Only S K b) :
    Only S K (if P then a else b) := by
  split
  · exact ha
  · exact hb

theorem only_foundIf {condition : Bool} {p : Problem} (h : S p) :
    Only S K (foundIf condition p) :=
  (only_found h).ite only_clean

theorem Only.bind {x : Except Failure α} {f : α → Check} (h : ∀ y, x = .ok y → Only S K (f y)) :
    Only S K (x >>= f) := by
  cases x with
  | error e => exact only_error
  | ok y => exact h y rfl

/-- A check that is carried out behind an earlier report. -/
theorem Only.after (h : Only S K c) {earlier : Report} (he : ∀ p ∈ earlier.problems, S p)
    (hcalls : ∀ call ∈ earlier.calls, K call) :
    Only S K (c >>= fun report => return earlier ++ report) :=
  .bind fun report hc => only_ok
    (fun p hp => (List.mem_append.1 hp).elim (he p) (h.problems report hc p))
    fun call hcall => (List.mem_append.1 hcall).elim (hcalls call) (h.calls report hc call)

theorem Only.both (ha : Only S K a) (hb : Only S K b) : Only S K (both a b) :=
  .bind fun report h => hb.after (ha.problems report h) (ha.calls report h)

theorem Only.each {xs : List α} {check : α → Check} (h : ∀ x ∈ xs, Only S K (check x)) :
    Only S K (each xs check) := by
  induction xs with
  | nil => exact only_clean
  | cons x xs ih =>
    rw [each_cons]
    exact (h x List.mem_cons_self).both (ih fun y hy => h y (List.mem_cons_of_mem _ hy))

end Only

/-! ## Calls and problems in order -/

section Logs

variable {sort : Problem → Bool} {calls more : List Call} {ps qs : List Problem}

theorem logs_clean : Logs sort clean [] [] := ⟨_, rfl, rfl, rfl⟩

/-- A problem that is not of the sort. -/
theorem logs_found {p : Problem} (h : sort p = false) : Logs sort (found p) [] [] :=
  ⟨_, rfl, rfl, by simp [Report.ofProblem, h]⟩

theorem logs_foundIf {condition : Bool} {p : Problem} (h : sort p = false) :
    Logs sort (foundIf condition p) [] [] := by
  cases condition with
  | false => exact logs_clean
  | true => exact logs_found h

/-- A check that makes no calls and finds no problems of the sort. -/
theorem Only.logs {S : Problem → Prop} {K : Call → Prop} (h : Only S K c)
    (hS : ∀ p, S p → sort p = false) (hK : ∀ call, ¬K call) {report : Report}
    (hc : c = .ok report) : Logs sort c [] [] := by
  refine ⟨report, hc, ?_, List.filter_eq_nil_iff.2 fun p hp => ?_⟩
  · exact List.eq_nil_iff_forall_not_mem.2 fun call hcall => hK call (h.calls report hc call hcall)
  · rw [hS p (h.problems report hc p hp)]
    exact Bool.false_ne_true

theorem Logs.both (ha : Logs sort a calls ps) (hb : Logs sort b more qs) :
    Logs sort (both a b) (calls ++ more) (ps ++ qs) := by
  obtain ⟨r, rfl, rfl, rfl⟩ := ha
  obtain ⟨q, rfl, rfl, rfl⟩ := hb
  exact ⟨r ++ q, rfl, rfl, List.filter_append ..⟩

theorem Logs.each {xs : List α} {check : α → Check} {calls : α → List Call}
    {ps : α → List Problem} (h : ∀ x ∈ xs, Logs sort (check x) (calls x) (ps x)) :
    Logs sort (each xs check) (xs.flatMap calls) (xs.flatMap ps) := by
  induction xs with
  | nil => exact logs_clean
  | cons x xs ih =>
    rw [each_cons]
    exact (h x List.mem_cons_self).both (ih fun y hy => h y (List.mem_cons_of_mem _ hy))

theorem Logs.each_nil {xs : List α} {check : α → Check}
    (h : ∀ x ∈ xs, Logs sort (check x) [] []) : Logs sort (Check.each xs check) [] [] := by
  have hnil : ∀ β : Type, xs.flatMap (fun _ => ([] : List β)) = [] :=
    fun β => List.flatMap_eq_nil_iff.2 fun _ _ => rfl
  have heach := Logs.each h
  rwa [hnil, hnil] at heach

end Logs

/-! ## Deciding -/

theorem Decides.iff {P Q : Prop} (h : Decides T c P) (hPQ : P ↔ Q) : Decides T c Q :=
  h.imp fun _ hps => ⟨hps.1.trans hPQ, hps.2⟩

theorem decides_clean {P : Prop} (h : P) : Decides T clean P :=
  finds_ok ⟨by simp [Report.none, h], by simp [Report.none]⟩

theorem decides_found {p : Problem} {P : Prop} (hp : p.isMismatch) (h : ¬P) :
    Decides T (found p) P :=
  finds_ok ⟨by simp [Report.ofProblem, h], by simpa [Report.ofProblem] using hp⟩

/-- An earlier report in which there are no problems. -/
theorem Decides.after {P : Prop} {earlier : Report} (he : earlier.problems = [])
    (h : Decides T c P) : Decides T (do return earlier ++ (← c)) P := by
  constructor
  · intro report hreport
    cases c with
    | error f => cases hreport
    | ok r =>
      cases hreport
      rw [Report.problems_append, he]
      exact h.sound r rfl
  · intro hT
    obtain ⟨r, rfl⟩ := h.total hT
    exact ⟨_, rfl⟩

theorem Decides.both {P Q : Prop} (ha : Decides T a P) (hb : Decides T b Q) :
    Decides T (both a b) (P ∧ Q) := by
  refine Finds.both ha hb ?_
  intro ps qs hps hqs
  refine ⟨by rw [List.append_eq_nil_iff, hps.1, hqs.1], ?_⟩
  intro p hp
  rcases List.mem_append.1 hp with hp | hp
  · exact hps.2 p hp
  · exact hqs.2 p hp

/-- A check that is carried out only if another one finds nothing. -/
theorem Decides.andThen {P Q : Prop} (ha : Decides T a P) (hb : Decides T b Q) :
    Decides T (do
      let report ← a
      if report.isClean then return report ++ (← b) else return report) (P ∧ Q) := by
  cases a with
  | error f => exact ⟨by rintro _ ⟨⟩, fun hT => absurd (ha.total hT) (by simp)⟩
  | ok report =>
    obtain ⟨hiff, hall⟩ := ha.sound report rfl
    change Decides T (if report.isClean then _ else _) _
    split
    · rename_i hclean
      have hnil := Report.isClean_iff.1 hclean
      exact (hb.after hnil).iff ⟨fun hQ => ⟨hiff.1 hnil, hQ⟩, And.right⟩
    · rename_i hclean
      rw [Report.isClean_iff, hiff] at hclean
      exact finds_ok ⟨hiff.trans (iff_of_false hclean fun h => hclean h.1), hall⟩

theorem Decides.each {xs : List α} {check : α → Check} {P : α → Prop}
    (h : ∀ x ∈ xs, Decides T (check x) (P x)) : Decides T (each xs check) (∀ x ∈ xs, P x) := by
  induction xs with
  | nil => exact decides_clean (by simp)
  | cons x xs ih =>
    have hx := h x List.mem_cons_self
    have hxs := ih fun y hy => h y (List.mem_cons_of_mem _ hy)
    rw [each_cons]
    exact (hx.both hxs).iff List.forall_mem_cons.symm

/-! ## Counting -/

variable {sort : Problem → Bool} {m n : Nat}

theorem Counts.of_eq (h : Counts T sort c m) (hmn : m = n) : Counts T sort c n := hmn ▸ h

theorem counts_clean : Counts T sort clean 0 := finds_ok rfl

theorem counts_found (p : Problem) : Counts T sort (found p) (if sort p then 1 else 0) :=
  finds_ok (by simp [Report.ofProblem, List.countP_cons])

theorem counts_foundIf (condition : Bool) (p : Problem) :
    Counts T sort (foundIf condition p) (if condition ∧ sort p then 1 else 0) := by
  cases condition with
  | false => simpa [foundIf] using counts_clean
  | true => simpa [foundIf] using counts_found p

/-- A problem that is not of the sort. -/
theorem counts_found_zero {p : Problem} (h : sort p = false) : Counts T sort (found p) 0 :=
  (counts_found p).of_eq (by simp [h])

theorem counts_foundIf_zero {condition : Bool} {p : Problem} (h : sort p = false) :
    Counts T sort (foundIf condition p) 0 :=
  (counts_foundIf condition p).of_eq (by simp [h])

theorem Counts.both (ha : Counts T sort a m) (hb : Counts T sort b n) :
    Counts T sort (both a b) (m + n) :=
  Finds.both ha hb fun ps qs hps hqs => by rw [List.countP_append, hps, hqs]

theorem Counts.each {xs : List α} {check : α → Check} {count : α → Nat}
    (h : ∀ x ∈ xs, Counts T sort (check x) (count x)) :
    Counts T sort (each xs check) (xs.map count).sum := by
  induction xs with
  | nil => exact counts_clean
  | cons x xs ih =>
    have hx := h x List.mem_cons_self
    have hxs := ih fun y hy => h y (List.mem_cons_of_mem _ hy)
    rw [each_cons, List.map_cons, List.sum_cons]
    exact hx.both hxs

/-- A check that finds one problem for some things, and none for others. -/
theorem counts_each_countP {xs : List α} {check : α → Check} {p : α → Bool}
    (h : ∀ x ∈ xs, Counts T sort (check x) (if p x then 1 else 0)) :
    Counts T sort (each xs check) (xs.countP p) := by
  induction xs with
  | nil => exact counts_clean
  | cons x xs ih =>
    have hx := h x List.mem_cons_self
    have hxs := ih fun y hy => h y (List.mem_cons_of_mem _ hy)
    rw [each_cons, List.countP_cons, Nat.add_comm]
    exact hx.both hxs

/-- A check that finds none of the problems in any of some things. -/
theorem counts_each_zero {xs : List α} {check : α → Check}
    (h : ∀ x ∈ xs, Counts T sort (check x) 0) : Counts T sort (each xs check) 0 := by
  induction xs with
  | nil => exact counts_clean
  | cons x xs ih =>
    rw [each_cons]
    exact (h x List.mem_cons_self).both (ih fun y hy => h y (List.mem_cons_of_mem _ hy))

end Check

end GraphSchema
