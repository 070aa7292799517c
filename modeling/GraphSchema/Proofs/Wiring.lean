import GraphSchema.Proofs.Table
import GraphSchema.Wiring
import Mathlib.Data.List.Nodup

/-!
# Merging wirings

A wiring is merged into another one by registering its entries one after the other, first the
scalars and then the coercers. Unless entries may be overridden, this stops in front of the first
entry that the other wiring has already: those before it are taken over, and those from it on are
not. So a merge that is refused is not undone.

## Main definitions

* `Wiring.Key`, `Wiring.Entry`: what is registered, and under what.
* `Wiring.entries`, `Wiring.own?`: the entries of a wiring in order, and its own entry under a key.
* `Wiring.lookup`: what is looked up under a key.
* `Wiring.Built`: the wirings that registrations lead to.
* `Wiring.Shares`: two wirings have an entry in the same place.

## Main statements

* `Wiring.register_taken`, `Wiring.exists_register`: a single registration.
* `Wiring.exists_registerAll`, `Wiring.exists_registerAll_refused`: registrations in order.
* `Wiring.Built.find?_entries`: a wiring that was built holds its entries.
* `Wiring.merge_lookups`: when merging is refused, and what it does to lookups.
* `Wiring.not_all_or_nothing`: a merge that is refused after it has taken over a scalar.
-/

namespace GraphSchema

namespace Wiring

/-- What an entry of a wiring is found under. -/
inductive Key where
  | scalar (name : Text)
  | coercer (directive argument : Text)
deriving DecidableEq

/-- A scalar, or the coercer of an argument of a directive. -/
inductive Entry where
  | scalar (s : Scalar)
  | coercer (directive argument : Text) (c : Callback)

namespace Entry

/-- What the entry is found under. -/
def key : Entry → Key
  | scalar s => .scalar s.name
  | coercer directive argument _ => .coercer directive argument

/-- The failure of registering the entry where there is one already. -/
def refusal : Entry → Failure
  | scalar s => .badValue ("Scalar \"" ++ s.name ++ "\" is already registered.")
  | coercer directive argument _ => .badValue ("Argument \"" ++ argument ++ "\" of directive \"@"
      ++ directive ++ "\" already has a coercer.")

end Entry

/-- The wiring's own entry under a key. -/
def own? (w : Wiring) : Key → Option Entry
  | .scalar name => (w.scalars.get? name).map .scalar
  | .coercer directive argument => (w.coercer? directive argument).map (.coercer directive argument)

/-- What is looked up under a key. -/
def lookup (w : Wiring) : Key → Option Entry
  | .scalar name => (w.scalar? name).map .scalar
  | .coercer directive argument => (w.coercer? directive argument).map (.coercer directive argument)

/-- The entries for the arguments of a directive. -/
def entriesOf (e : Text × Table Text Callback) : List Entry :=
  e.2.map fun f => .coercer e.1 f.1 f.2

/-- The entries in the order in which they are merged. -/
def entries (w : Wiring) : List Entry :=
  w.scalars.values.map .scalar ++ w.coercers.flatMap entriesOf

/-- Registers an entry. -/
def register (w : Wiring) (e : Entry) (override : Bool) : Except Failure Wiring :=
  match e with
  | .scalar s => w.registerScalar s override
  | .coercer directive argument c => w.registerCoercer directive argument c override

/-- The wirings that registrations lead to. -/
inductive Built : Wiring → Prop
  | empty : Built empty
  | register {w q : Wiring} {e : Entry} {override : Bool} (hw : Built w)
      (h : w.register e override = .ok q) : Built q

/-- Some scalar has an entry in both, or some argument of a directive has one. -/
def Shares (w other : Wiring) : Prop :=
  (∃ name, w.scalars.has name ∧ other.scalars.has name) ∨
    ∃ directive argument,
      (w.coercer? directive argument).isSome ∧ (other.coercer? directive argument).isSome

theorem Entry.category_refusal (e : Entry) : e.refusal.category = .value := by
  cases e <;> rfl

variable {w other q : Wiring} {e : Entry} {es : List Entry} {key : Key} {override : Bool}

/-! ## Single registrations -/

/-- What is already there is refused unless it may be overridden. -/
theorem register_taken (h : (w.own? e.key).isSome) : w.register e false = .error e.refusal := by
  cases e with
  | scalar s =>
    have hs : w.scalars.has s.name := by simpa [Entry.key, own?, Table.has] using h
    simp [register, registerScalar, hs, Entry.refusal]
  | coercer directive argument c =>
    have hc : (w.coercersOf directive).has argument := by
      simpa [Entry.key, own?, coercer?, Table.has] using h
    simp [register, registerCoercer, hc, Entry.refusal]

/-- Where it is not refused, a registration changes what is found under the key of the entry, and
nothing else. -/
theorem exists_register (h : override = true ∨ w.own? e.key = none) :
    ∃ q, w.register e override = .ok q ∧
      ∀ key, q.own? key = if e.key = key then some e else w.own? key := by
  cases e with
  | scalar s =>
    have hs : ¬(w.scalars.has s.name ∧ !override) := by
      rcases h with rfl | h
      · simp
      · have hnone : w.scalars.get? s.name = none := Option.map_eq_none_iff.1 h
        simp [Table.has, hnone]
    refine ⟨_, if_neg hs, fun key => ?_⟩
    cases key with
    | scalar name =>
      simp only [own?, Entry.key, Table.get?_put, Key.scalar.injEq]
      split <;> rfl
    | coercer => simp [own?, Entry.key, coercer?, coercersOf]
  | coercer directive argument c =>
    have hc : ¬((w.coercersOf directive).has argument ∧ !override) := by
      rcases h with rfl | h
      · simp
      · have hnone : (w.coercersOf directive).get? argument = none := Option.map_eq_none_iff.1 h
        simp [Table.has, hnone]
    refine ⟨_, if_neg hc, fun key => ?_⟩
    cases key with
    | scalar name => simp [own?, Entry.key]
    | coercer d a =>
      simp only [own?, Entry.key, coercer?, coercersOf, Table.get?_put, Key.coercer.injEq]
      by_cases hd : directive = d
      · subst hd
        by_cases ha : argument = a <;> simp [ha, Table.get?_put]
      · simp [hd]

/-! ## Registrations in order -/

/-- The entry of a list that has a key. -/
def find? (es : List Entry) (key : Key) : Option Entry := es.find? fun e => e.key = key

theorem find?_append (xs ys : List Entry) (key : Key) :
    find? (xs ++ ys) key = (find? xs key).or (find? ys key) := List.find?_append

theorem find?_eq_none (h : key ∉ es.map Entry.key) : find? es key = none := by
  rw [find?, List.find?_eq_none]
  intro e he heq
  exact h (List.mem_map.2 ⟨e, he, by simpa using heq⟩)

theorem find?_cons_new (hnew : e.key ∉ es.map Entry.key) (key : Key) :
    find? (e :: es) key = (find? es key).or (if e.key = key then some e else none) := by
  by_cases hkey : e.key = key
  · subst hkey
    rw [find?_eq_none hnew, Option.none_or, if_pos rfl, find?, List.find?_cons_of_pos (by simp)]
  · rw [if_neg hkey, Option.or_none, find?, List.find?_cons_of_neg (by simpa using hkey), find?]

theorem registrations_eq (w : Wiring) (override : Bool) :
    w.registrations override = w.entries.map fun e w => w.register e override := by
  simp only [registrations, entries, entriesOf, List.map_append, List.map_map, List.map_flatMap]
  rfl

theorem registerAll_append {w q : Wiring} {xs ys : List (Wiring → Except Failure Wiring)}
    (h : w.registerAll xs = (q, none)) : w.registerAll (xs ++ ys) = q.registerAll ys := by
  induction xs generalizing w with
  | nil =>
    cases h
    rfl
  | cons x xs ih =>
    rw [registerAll] at h
    rw [List.cons_append, registerAll]
    cases hx : x w with
    | ok v =>
      rw [hx] at h
      exact ih h
    | error f =>
      rw [hx] at h
      cases h

/-- Entries with different keys can be registered one after the other if none of them is there
already, or if they may be overridden. -/
theorem exists_registerAll (hnodup : (es.map Entry.key).Nodup)
    (h : override = true ∨ ∀ e ∈ es, w.own? e.key = none) :
    ∃ q, w.registerAll (es.map fun e w => w.register e override) = (q, none) ∧
      ∀ key, q.own? key = (find? es key).or (w.own? key) := by
  induction es generalizing w with
  | nil => exact ⟨w, rfl, fun key => rfl⟩
  | cons e es ih =>
    obtain ⟨hnew, hnodup⟩ := List.nodup_cons.1 hnodup
    obtain ⟨v, hv, hown⟩ :=
      exists_register (h.imp_right fun h => h e List.mem_cons_self)
    have hrest : override = true ∨ ∀ f ∈ es, v.own? f.key = none := by
      refine h.imp_right fun h f hf => ?_
      have hne : e.key ≠ f.key := fun heq => hnew (heq ▸ List.mem_map_of_mem hf)
      rw [hown, if_neg hne, h f (List.mem_cons_of_mem e hf)]
    obtain ⟨q, hq, hall⟩ := ih hnodup hrest
    refine ⟨q, ?_, fun key => ?_⟩
    · rw [List.map_cons, registerAll, hv]
      exact hq
    · rw [hall, hown, find?_cons_new hnew, Option.or_assoc]
      split <;> rfl

/-- Registrations end at the first entry that is there already. Those before it are not undone. -/
theorem exists_registerAll_refused {taken rest : List Entry}
    (hnodup : ((taken ++ e :: rest).map Entry.key).Nodup)
    (hfree : ∀ f ∈ taken, w.own? f.key = none) (he : (w.own? e.key).isSome) :
    ∃ q, w.registerAll ((taken ++ e :: rest).map fun e w => w.register e false) =
        (q, some e.refusal) ∧
      ∀ key, q.own? key = (find? taken key).or (w.own? key) := by
  rw [List.map_append, List.nodup_append] at hnodup
  obtain ⟨htaken, -, hne⟩ := hnodup
  obtain ⟨q, hq, hall⟩ := exists_registerAll htaken (.inr hfree)
  refine ⟨q, ?_, hall⟩
  have hnew : e.key ∉ taken.map Entry.key := fun he => hne _ he _ List.mem_cons_self rfl
  have hrefused : (q.own? e.key).isSome := by rwa [hall, find?_eq_none hnew, Option.none_or]
  rw [List.map_append, registerAll_append hq, List.map_cons, registerAll, register_taken hrefused]

/-! ## The entries of a wiring -/

/-- No key is there twice, and scalars stand under their names. -/
structure Consistent (w : Wiring) : Prop where
  scalars : w.scalars.keys.Nodup
  names : ∀ e ∈ w.scalars, e.2.name = e.1
  coercers : w.coercers.keys.Nodup
  arguments : ∀ e ∈ w.coercers, e.2.keys.Nodup

theorem consistent_empty : Consistent empty := by
  constructor <;> simp [empty, Table.keys]

theorem Consistent.register (h : Consistent w) (hq : w.register e override = .ok q) :
    Consistent q := by
  have hkeys : ∀ {α : Type} (t : Table Text α) (key : Text) (a : α), t.keys.Nodup →
      (t.put key a).keys.Nodup := by
    intro α t key a ht
    rw [Table.keys_put]
    split
    · exact ht
    · rw [← List.concat_eq_append]
      exact ht.concat ‹_›
  cases e with
  | scalar s =>
    rw [Wiring.register, registerScalar] at hq
    split at hq <;> cases hq
    refine ⟨hkeys _ _ _ h.scalars, fun e he => ?_, h.coercers, h.arguments⟩
    rcases Table.mem_of_mem_put he with rfl | he
    · rfl
    · exact h.names e he
  | coercer directive argument c =>
    rw [Wiring.register, registerCoercer] at hq
    split at hq <;> cases hq
    refine ⟨h.scalars, h.names, hkeys _ _ _ h.coercers, fun e he => ?_⟩
    rcases Table.mem_of_mem_put he with rfl | he
    · refine hkeys _ _ _ ?_
      rw [coercersOf]
      cases hget : w.coercers.get? directive with
      | none => simp [Table.keys]
      | some t => exact h.arguments _ (Table.mem_of_get? hget)
    · exact h.arguments e he

theorem Built.consistent (h : Built w) : Consistent w := by
  induction h with
  | empty => exact consistent_empty
  | register hw h ih => exact ih.register h

namespace Consistent

theorem nodup_keys (h : Consistent w) : (w.entries.map Entry.key).Nodup := by
  have hscalars : (w.scalars.values.map Entry.scalar).map Entry.key =
      w.scalars.keys.map Key.scalar := by
    simp only [Table.values, Table.keys, List.map_map]
    exact List.map_congr_left fun e he => congrArg Key.scalar (h.names e he)
  have hcoercers : (w.coercers.flatMap entriesOf).map Entry.key =
      w.coercers.flatMap fun e => e.2.keys.map (Key.coercer e.1) := by
    simp only [entriesOf, Table.keys, List.map_flatMap, List.map_map]
    rfl
  rw [entries, List.map_append, hscalars, hcoercers, List.nodup_append, List.nodup_flatMap]
  refine ⟨h.scalars.map fun _ _ heq => Key.scalar.inj heq, ⟨fun e he => ?_, ?_⟩, ?_⟩
  · exact (h.arguments e he).map fun _ _ heq => (Key.coercer.inj heq).2
  · -- Keys of different directives differ.
    refine (List.pairwise_map.1 h.coercers).imp fun {e f} hne key he hf => ?_
    obtain ⟨a, -, rfl⟩ := List.mem_map.1 he
    obtain ⟨b, -, heq⟩ := List.mem_map.1 hf
    exact hne (Key.coercer.inj heq).1.symm
  · intro key hkey key' hkey'
    obtain ⟨name, -, rfl⟩ := List.mem_map.1 hkey
    obtain ⟨e, -, he⟩ := List.mem_flatMap.1 hkey'
    obtain ⟨a, -, rfl⟩ := List.mem_map.1 he
    exact Key.noConfusion

theorem mem_entries_iff (h : Consistent w) : e ∈ w.entries ↔ w.own? e.key = some e := by
  rw [entries, List.mem_append, List.mem_map, List.mem_flatMap]
  cases e with
  | scalar s =>
    rw [Entry.key, own?, Option.map_eq_some_iff]
    constructor
    · rintro (⟨s', hs, ⟨⟩⟩ | ⟨f, -, hf⟩)
      · obtain ⟨f, hf, rfl⟩ := List.mem_map.1 hs
        exact ⟨f.2, by rw [h.names f hf]; exact Table.get?_of_mem h.scalars hf, rfl⟩
      · simp [entriesOf] at hf
    · rintro ⟨s', hs, ⟨⟩⟩
      exact .inl ⟨s, List.mem_map.2 ⟨_, Table.mem_of_get? hs, rfl⟩, rfl⟩
  | coercer directive argument c =>
    rw [Entry.key, own?, Option.map_eq_some_iff, coercer?, coercersOf]
    constructor
    · rintro (⟨s, -, ⟨⟩⟩ | ⟨f, hf, hc⟩)
      obtain ⟨g, hg, ⟨⟩⟩ := List.mem_map.1 hc
      refine ⟨g.2, ?_, rfl⟩
      rw [Table.get?_of_mem h.coercers hf]
      exact Table.get?_of_mem (h.arguments f hf) hg
    · rintro ⟨c', hc, ⟨⟩⟩
      cases hget : w.coercers.get? directive with
      | none => simp [hget, Table.get?] at hc
      | some t =>
        rw [hget] at hc
        exact .inr ⟨_, Table.mem_of_get? hget, List.mem_map.2 ⟨_, Table.mem_of_get? hc, rfl⟩⟩

/-- What is looked up is one of the entries. -/
theorem find?_entries (h : Consistent w) (key : Key) : find? w.entries key = w.own? key := by
  have hfound : ∀ {key e}, find? w.entries key = some e → w.own? key = some e := by
    intro key e he
    have hmem := h.mem_entries_iff.1 (List.mem_of_find?_eq_some he)
    have heq : e.key = key := by simpa using List.find?_some he
    rwa [heq] at hmem
  cases he : w.own? key with
  | none =>
    rw [Option.eq_none_iff_forall_ne_some]
    intro e hfind
    rw [hfound hfind] at he
    cases he
  | some e =>
    have hkey : e.key = key := by
      cases key with
      | scalar name =>
        obtain ⟨s, hs, rfl⟩ := Option.map_eq_some_iff.1 he
        exact congrArg Key.scalar (h.names _ (Table.mem_of_get? hs))
      | coercer directive argument =>
        obtain ⟨c, -, rfl⟩ := Option.map_eq_some_iff.1 he
        rfl
    have hsome : (find? w.entries key).isSome :=
      List.find?_isSome.2 ⟨e, h.mem_entries_iff.2 (hkey ▸ he), by simpa using hkey⟩
    obtain ⟨f, hf⟩ := Option.isSome_iff_exists.1 hsome
    rw [hf, ← hfound hf, he]

/-- An entry is shared if it is found in both wirings. -/
theorem shares_iff (h : Consistent other) :
    Shares w other ↔ ∃ e ∈ other.entries, (w.own? e.key).isSome := by
  have hkey : Shares w other ↔ ∃ key, (w.own? key).isSome ∧ (other.own? key).isSome := by
    constructor
    · rintro (⟨name, hw, ho⟩ | ⟨directive, argument, hw, ho⟩)
      · exact ⟨.scalar name, by simpa [own?, Table.has] using hw,
          by simpa [own?, Table.has] using ho⟩
      · exact ⟨.coercer directive argument, by simpa [own?] using hw, by simpa [own?] using ho⟩
    · rintro ⟨⟨name⟩ | ⟨directive, argument⟩, hw, ho⟩
      · exact .inl ⟨name, by simpa [own?, Table.has] using hw,
          by simpa [own?, Table.has] using ho⟩
      · exact .inr ⟨directive, argument, by simpa [own?] using hw, by simpa [own?] using ho⟩
  rw [hkey]
  constructor
  · rintro ⟨key, hw, ho⟩
    rw [← h.find?_entries, find?, List.find?_isSome] at ho
    obtain ⟨e, he, heq⟩ := ho
    exact ⟨e, he, by rwa [show e.key = key by simpa using heq]⟩
  · rintro ⟨e, he, hw⟩
    exact ⟨e.key, hw, by rw [h.mem_entries_iff.1 he]; rfl⟩

end Consistent

/-! ## Merging -/

/-- What is looked up is an entry of the wiring, or else a scalar that is always there. -/
theorem lookup_eq (w : Wiring) (key : Key) : w.lookup key = (w.own? key).or (empty.lookup key) := by
  cases key with
  | scalar name =>
    simp only [lookup, own?, scalar?]
    cases w.scalars.get? name <;> rfl
  | coercer directive argument => exact (Option.or_none ..).symm

theorem lookup_of_own? (hown : q.own? key = (find? es key).or (w.own? key)) :
    q.lookup key = (find? es key).or (w.lookup key) := by
  rw [lookup_eq, hown, Option.or_assoc, ← lookup_eq]

/-- Of a wiring whose keys are different, a part of the entries gives what the whole of them gives,
where it has the key. -/
theorem Consistent.find?_taken {taken rest : List Entry} (h : Consistent other)
    (hentries : other.entries = taken ++ rest) (key : Key) :
    find? taken key = if key ∈ taken.map Entry.key then other.own? key else none := by
  split
  · rename_i hmem
    obtain ⟨e, he, heq⟩ := List.mem_map.1 hmem
    have hsome : (find? taken key).isSome := List.find?_isSome.2 ⟨e, he, by simpa using heq⟩
    rw [← h.find?_entries, hentries, find?_append, Option.or_of_isSome hsome]
  · exact find?_eq_none ‹_›

theorem Built.registerAll (h : Built w) (es : List Entry) (override : Bool) :
    Built (w.registerAll (es.map fun e w => w.register e override)).1 := by
  induction es generalizing w with
  | nil => exact h
  | cons e es ih =>
    rw [List.map_cons, Wiring.registerAll]
    split
    · rename_i hv
      exact ih (h.register hv)
    · exact h

/-- Merging leads to wirings that registrations lead to, also where it is refused. -/
theorem Built.merge (h : Built w) (other : Wiring) (override : Bool) :
    Built (w.merge other override).1 := by
  rw [Wiring.merge, registrations_eq]
  exact h.registerAll other.entries override

/-- A scalar and a coercer that are registered. -/
theorem built_uuid : Built ⟨[("UUID", .uuid)], [("tag", [("name", .accepting "new")])]⟩ := by
  have hscalar : empty.register (.scalar .uuid) false = .ok ⟨[("UUID", .uuid)], []⟩ := rfl
  have hcoercer : register ⟨[("UUID", .uuid)], []⟩
      (.coercer "tag" "name" (.accepting "new")) false =
        .ok ⟨[("UUID", .uuid)], [("tag", [("name", .accepting "new")])]⟩ := rfl
  exact (Built.empty.register hscalar).register hcoercer

/-- A merge is refused exactly if the wirings share an entry and it may not be overridden. It then
has taken over the entries in front of the first that is shared; all else is found as before. A
merge that is not refused takes over every entry. -/
theorem merge_lookups (hother : Built other) (w : Wiring) (override : Bool) :
    ((w.merge other override).2.isSome ↔ override = false ∧ Shares w other) ∧
    (∀ f, (w.merge other override).2 = some f → f.category = .value ∧
      ∃ taken e rest, other.entries = taken ++ e :: rest ∧
        (∀ x ∈ taken, w.own? x.key = none) ∧ (w.own? e.key).isSome ∧ f = e.refusal ∧
        ∀ key, (w.merge other override).1.lookup key =
          if key ∈ taken.map Entry.key then other.own? key else w.lookup key) ∧
    ((w.merge other override).2 = none → ∀ key,
      (w.merge other override).1.lookup key = (other.own? key).or (w.lookup key)) := by
  have hall := hother.consistent
  rw [merge, registrations_eq]
  by_cases hshared : override = false ∧ Shares w other
  · -- The first entry that is there already ends the merge.
    obtain ⟨rfl, hshares⟩ := hshared
    obtain ⟨e, hfind⟩ := Option.isSome_iff_exists.1
      (List.find?_isSome.2 (hall.shares_iff.1 hshares))
    obtain ⟨he, taken, rest, hentries, hfree⟩ := List.find?_eq_some_iff_append.1 hfind
    have hnew : ∀ x ∈ taken, w.own? x.key = none := by simpa using hfree
    obtain ⟨q, hq, hlookup⟩ :=
      exists_registerAll_refused (hentries ▸ hall.nodup_keys) hnew he
    rw [hentries, hq]
    refine ⟨⟨fun _ => ⟨rfl, hshares⟩, fun _ => rfl⟩, ?_, fun h => nomatch h⟩
    rintro f ⟨⟩
    refine ⟨e.category_refusal, taken, e, rest, rfl, hnew, he, rfl, fun key => ?_⟩
    rw [lookup_of_own? (hlookup key), hall.find?_taken hentries]
    split
    · rename_i hmem
      obtain ⟨x, hx, rfl⟩ := List.mem_map.1 hmem
      rw [hall.mem_entries_iff.1 (hentries ▸ List.mem_append_left _ hx), Option.some_or]
    · rw [Option.none_or]
  · have hfree : override = true ∨ ∀ e ∈ other.entries, w.own? e.key = none := by
      rw [hall.shares_iff] at hshared
      simpa [or_iff_not_imp_left] using hshared
    obtain ⟨q, hq, hlookup⟩ := exists_registerAll hall.nodup_keys hfree
    rw [hq]
    refine ⟨⟨fun h => (nomatch h), fun h => absurd h hshared⟩, fun f h => (nomatch h),
      fun _ key => ?_⟩
    rw [lookup_of_own? (hlookup key), hall.find?_entries]

/-- The coercer of an argument is shared, so only the scalar in front of it is taken over. -/
theorem merge_lookups_shared_coercer :
    Built ⟨[("UUID", .uuid)], [("tag", [("name", .accepting "new")])]⟩ ∧
    (merge ⟨[], [("tag", [("name", .accepting "old")])]⟩
      ⟨[("UUID", .uuid)], [("tag", [("name", .accepting "new")])]⟩ false).2.isSome :=
  ⟨built_uuid, (merge_lookups built_uuid ⟨[], [("tag", [("name", .accepting "old")])]⟩ false).1.2
    ⟨rfl, .inr ⟨"tag", "name", rfl, rfl⟩⟩⟩

/-- A merge that is refused can have changed what is looked up. -/
theorem not_all_or_nothing : ¬∀ w other : Wiring, ∀ override, Built w → Built other →
    (w.merge other override).2.isSome →
      ∀ key, (w.merge other override).1.lookup key = w.lookup key := by
  intro h
  have hold : empty.register (.coercer "tag" "name" (.accepting "old")) false =
      .ok ⟨[], [("tag", [("name", .accepting "old")])]⟩ := rfl
  have hsame := h _ _ false (Built.empty.register hold) built_uuid rfl (.scalar "UUID")
  have hbefore : lookup ⟨[], [("tag", [("name", .accepting "old")])]⟩ (.scalar "UUID") = none := by
    decide
  rw [hbefore] at hsame
  cases hsame

end Wiring

end GraphSchema
