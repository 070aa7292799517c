import GraphSchema.Table
import Mathlib.Data.List.Basic
import Mathlib.Data.List.Induction
import Mathlib.Data.List.Nodup

/-!
# Entries of tables

What stands in a table after an entry was put into it or taken from it.

## Main definitions

* `Table.mapValues`: a table with values that are mapped.

## Main statements

* `Table.mem_of_get?`: what a key stands for is an entry.
* `Table.mem_of_mem_put`, `Table.mem_of_mem_ofFirst` and the like: where the entries come from.
* `Table.keys_put`, `Table.keys_erase`, `Table.keys_ofFirst`, `Table.keys_ofLast`: the order of the
  keys.
* `Table.pair_sublist_values_iff`: the order of the values.
* `Table.eq_of_keys`: what determines a table.
* `Table.get?_ofFirst`, `Table.get?_ofLast`: which of several entries of one key counts.
* `Table.get?_putAll`: the entries of one table put into another one.
* `Table.put_mapValues`, `Table.ofFirst_mapValues` and the like: tables with values that are mapped.
-/

namespace GraphSchema

namespace Table

universe u v

variable {κ : Type u} {α : Type v} [DecidableEq κ] {t : Table κ α} {key : κ} {a : α} {e : κ × α}

/-- What a key stands for is an entry. -/
theorem mem_of_get? (h : t.get? key = some a) : (key, a) ∈ t := by
  induction t with
  | nil => cases h
  | cons e t ih =>
    obtain ⟨k, b⟩ := e
    unfold get? at h
    split at h
    · rename_i hk
      cases h
      rw [hk]
      exact List.mem_cons_self
    · exact List.mem_cons_of_mem _ (ih h)

/-- Entries of a table into which an entry was put are this one and former ones. -/
theorem mem_of_mem_put (h : e ∈ t.put key a) : e = (key, a) ∨ e ∈ t := by
  induction t with
  | nil => exact .inl (List.mem_singleton.1 h)
  | cons f t ih =>
    obtain ⟨k, b⟩ := f
    unfold put at h
    split at h
    · rename_i hk
      rcases List.mem_cons.1 h with rfl | h
      · exact .inl (by rw [hk])
      · exact .inr (List.mem_cons_of_mem _ h)
    · rcases List.mem_cons.1 h with rfl | h
      · exact .inr List.mem_cons_self
      · exact (ih h).imp_right (List.mem_cons_of_mem _)

theorem mem_of_mem_erase (h : e ∈ t.erase key) : e ∈ t := (List.mem_filter.1 h).1

omit [DecidableEq κ] in
/-- Entries of a table that is built in steps, each of which adds at most its own entry. -/
theorem mem_of_mem_foldl {step : Table κ α → κ × α → Table κ α} {es : List (κ × α)}
    (hstep : ∀ t f, e ∈ step t f → e = f ∨ e ∈ t) (h : e ∈ es.foldl step t) : e ∈ t ∨ e ∈ es := by
  induction es generalizing t with
  | nil => exact .inl h
  | cons f es ih =>
    rcases ih h with h | h
    · rcases hstep t f h with rfl | h
      · exact .inr List.mem_cons_self
      · exact .inl h
    · exact .inr (List.mem_cons_of_mem _ h)

theorem mem_of_mem_ofFirst {es : List (κ × α)} (h : e ∈ ofFirst es) : e ∈ es := by
  refine (mem_of_mem_foldl (fun t f h => ?_) h).resolve_left List.not_mem_nil
  split at h
  · exact .inr h
  · exact mem_of_mem_put h

theorem mem_of_mem_ofLast {es : List (κ × α)} (h : e ∈ ofLast es) : e ∈ es :=
  (mem_of_mem_foldl (fun _ _ => mem_of_mem_put) h).resolve_left List.not_mem_nil

/-- What stands under a key after an entry was put into a table. -/
theorem get?_put (t : Table κ α) (k key : κ) (a : α) :
    (t.put k a).get? key = if k = key then some a else t.get? key := by
  induction t with
  | nil => rfl
  | cons f t ih =>
    obtain ⟨l, b⟩ := f
    by_cases hl : l = k
    · subst hl
      simp only [put, get?, if_pos]
      split <;> rfl
    · rw [put, if_neg hl, get?, get?, ih]
      by_cases hkey : l = key
      · rw [if_pos hkey, if_neg fun h => hl (hkey.trans h.symm), if_pos hkey]
      · rw [if_neg hkey, if_neg hkey]

/-- What stands under a key after a key was taken from a table. -/
theorem get?_erase (t : Table κ α) (k key : κ) :
    (t.erase k).get? key = if k = key then none else t.get? key := by
  induction t with
  | nil => simp [erase, get?]
  | cons f t ih =>
    obtain ⟨l, b⟩ := f
    rw [erase] at ih ⊢
    by_cases hl : l = k
    · rw [List.filter_cons_of_neg (by simpa using hl), ih, get?, hl]
      split <;> rfl
    · rw [List.filter_cons_of_pos (by simpa using hl), get?, get?, ih]
      by_cases hkey : l = key
      · rw [if_pos hkey, if_neg fun h => hl (hkey.trans h.symm), if_pos hkey]
      · rw [if_neg hkey, if_neg hkey]

/-- The first entry of a key counts. -/
theorem get?_eq_find? (t : Table κ α) (key : κ) :
    t.get? key = (t.find? fun e => e.1 = key).map Prod.snd := by
  induction t with
  | nil => rfl
  | cons e t ih =>
    by_cases hkey : e.1 = key
    · rw [get?, if_pos hkey, List.find?_cons_of_pos (by simpa using hkey)]
      rfl
    · rw [get?, if_neg hkey, List.find?_cons_of_neg (by simpa using hkey), ih]

/-- The keys are those that stand for something. -/
theorem get?_map {β : Type v} (t : Table κ α) (f : κ → α → β) (key : κ) :
    get? (t.map fun e => (e.1, f e.1 e.2)) key = (t.get? key).map (f key) := by
  induction t with
  | nil => rfl
  | cons e t ih =>
    rw [List.map_cons, get?, get?]
    split
    · subst key
      rfl
    · exact ih

theorem mem_keys_iff {t : Table κ α} {key : κ} : key ∈ t.keys ↔ (t.get? key).isSome := by
  rw [get?_eq_find?, Option.isSome_map, List.find?_isSome, keys, List.mem_map]
  simp

/-- A key that is present keeps its place, and another one comes last. -/
theorem keys_put (t : Table κ α) (k : κ) (a : α) :
    (t.put k a).keys = if k ∈ t.keys then t.keys else t.keys ++ [k] := by
  induction t with
  | nil => rfl
  | cons f t ih =>
    obtain ⟨l, b⟩ := f
    by_cases hl : l = k
    · simp [put, keys, hl]
    · rw [put, if_neg hl]
      change l :: (put t k a).keys = if k ∈ l :: keys t then l :: keys t else l :: keys t ++ [k]
      rw [ih]
      by_cases hk : k ∈ keys t
      · simp [hk]
      · simp [hk, Ne.symm hl]

theorem keys_erase (t : Table κ α) (k : κ) : (t.erase k).keys = t.keys.filter (· ≠ k) := by
  rw [erase, keys, keys, List.filter_map]
  rfl

/-- The values are what the keys stand for, in the order of the keys. -/
theorem values_eq (t : Table κ α) (h : t.keys.Nodup) : t.values = t.keys.filterMap t.get? := by
  induction t with
  | nil => rfl
  | cons f t ih =>
    obtain ⟨l, b⟩ := f
    obtain ⟨hl, h⟩ := List.nodup_cons.1 (show (l :: keys t).Nodup from h)
    have hrest : (keys t).filterMap (get? ((l, b) :: t)) = (keys t).filterMap (get? t) := by
      refine List.filterMap_congr fun k hk => ?_
      rw [get?, if_neg fun heq : l = k => hl (heq ▸ hk)]
    change b :: values t = (l :: keys t).filterMap (get? ((l, b) :: t))
    rw [List.filterMap_cons, hrest, ← ih h]
    simp [get?]

/-- Two values stand in the order of their keys, if values know theirs. -/
theorem pair_sublist_values_iff (t : Table κ α) (h : t.keys.Nodup) {f : α → Option κ}
    (hf : ∀ k a, t.get? k = some a → f a = some k) {k l : κ} {a b : α}
    (ha : t.get? k = some a) (hb : t.get? l = some b) :
    [a, b].Sublist t.values ↔ [k, l].Sublist t.keys := by
  have hkeys : t.values.filterMap f = t.keys := by
    rw [values_eq t h, List.filterMap_filterMap]
    refine (List.filterMap_congr fun key hkey => ?_).trans List.filterMap_some
    obtain ⟨c, hc⟩ := Option.isSome_iff_exists.1 (mem_keys_iff.1 hkey)
    rw [hc, Option.bind_some, hf key c hc]
  constructor
  · intro hsub
    have hsub := hsub.filterMap f
    rwa [hkeys, List.filterMap_cons_some (hf k a ha), List.filterMap_cons_some (hf l b hb),
      List.filterMap_nil] at hsub
  · intro hsub
    have hsub := hsub.filterMap t.get?
    rwa [← values_eq t h, List.filterMap_cons_some ha, List.filterMap_cons_some hb,
      List.filterMap_nil] at hsub

/-- A table is determined by its keys and by what they stand for. -/
theorem eq_of_keys {t u : Table κ α} (hkeys : t.keys = u.keys) (h : t.keys.Nodup)
    (hget : ∀ key, t.get? key = u.get? key) : t = u := by
  have hvalues : t.values = u.values := by
    rw [values_eq t h, values_eq u (hkeys ▸ h), hkeys]
    exact List.filterMap_congr fun k _ => hget k
  rw [← List.zip_unzip t, ← List.zip_unzip u, List.unzip_eq_map, List.unzip_eq_map]
  exact congrArg₂ List.zip hkeys hvalues

/-- If no key is there twice, each key stands for what its entry says. -/
theorem get?_of_mem (h : t.keys.Nodup) (he : e ∈ t) : t.get? e.1 = some e.2 := by
  rw [get?_eq_find?]
  induction t with
  | nil => cases he
  | cons f t ih =>
    obtain ⟨hf, h⟩ := List.nodup_cons.1 (show (f.1 :: keys t).Nodup from h)
    rcases List.mem_cons.1 he with rfl | he
    · simp
    · have hne : f.1 ≠ e.1 := fun heq => hf (heq ▸ List.mem_map_of_mem he)
      rw [List.find?_cons_of_neg (by simpa using hne), ih h he]

/-! ## The order of keys -/

/-- Keys stay different if one is added that is new. -/
theorem nodup_concat {ι : Type u} {keys : List ι} (h : keys.Nodup) (key : ι)
    [Decidable (key ∈ keys)] : (if key ∈ keys then keys else keys ++ [key]).Nodup := by
  split
  · exact h
  · rw [← List.concat_eq_append]
    exact List.Nodup.concat ‹_› h

section

variable {ι : Type u} [BEq ι] [LawfulBEq ι]

theorem eraseDups_concat (keys : List ι) (key : ι) :
    (if key ∈ keys.eraseDups then keys.eraseDups else keys.eraseDups ++ [key]) =
      (keys ++ [key]).eraseDups := by
  rw [List.eraseDups_append]
  by_cases h : key ∈ keys <;> simp [h, List.removeAll, List.eraseDups_cons]

theorem nodup_eraseDups (keys : List ι) : keys.eraseDups.Nodup := by
  induction keys using List.reverseRecOn with
  | nil => exact List.nodup_nil
  | append_singleton keys key ih =>
    rw [← eraseDups_concat]
    exact nodup_concat ih key

/-- Different keys may be replaced by others that differ as well. -/
theorem eraseDups_map {f : ι → κ} (hf : Function.Injective f) (keys : List ι) :
    (keys.map f).eraseDups = keys.eraseDups.map f := by
  induction keys using List.reverseRecOn with
  | nil => rfl
  | append_singleton keys key ih =>
    rw [List.map_append, List.map_singleton, ← eraseDups_concat, ih, ← eraseDups_concat]
    by_cases h : key ∈ keys.eraseDups
    · rw [if_pos (List.mem_map_of_mem h), if_pos h]
    · rw [if_neg (mt (List.mem_map_of_injective hf).1 h), if_neg h, List.map_append]
      rfl

end

/-- A fold that puts each key into the table, if it is not there. -/
theorem keys_foldl {step : Table κ α → κ × α → Table κ α} (hstep : ∀ t e,
    (step t e).keys = if e.1 ∈ t.keys then t.keys else t.keys ++ [e.1]) (es : List (κ × α)) :
    (es.foldl step []).keys = (es.map Prod.fst).eraseDups := by
  induction es using List.reverseRecOn with
  | nil => rfl
  | append_singleton es e ih =>
    rw [List.foldl_append, List.foldl_cons, List.foldl_nil, hstep, ih, eraseDups_concat]
    simp

/-- Of entries of one key the place of the first counts. -/
theorem keys_ofLast (es : List (κ × α)) : (ofLast es).keys = (es.map Prod.fst).eraseDups :=
  keys_foldl (fun t e => keys_put t e.1 e.2) es

theorem keys_ofFirst (es : List (κ × α)) : (ofFirst es).keys = (es.map Prod.fst).eraseDups := by
  refine keys_foldl (fun t e => ?_) es
  by_cases h : e.1 ∈ t.keys
  · rw [if_pos (show t.has e.1 from mem_keys_iff.1 h), if_pos h]
  · rw [if_neg (show ¬t.has e.1 from mt mem_keys_iff.2 h), keys_put]

/-- In the table of entries of which the first counts. -/
theorem get?_ofFirst (es : List (κ × α)) (key : κ) :
    (ofFirst es).get? key = (es.find? fun e => e.1 = key).map Prod.snd := by
  have hfold : ∀ t : Table κ α, (es.foldl (fun t entry =>
      if t.has entry.1 then t else t.put entry.1 entry.2) t).get? key =
      (t.get? key).or ((es.find? fun e => e.1 = key).map Prod.snd) := by
    induction es with
    | nil => exact fun t => (Option.or_none).symm
    | cons e es ih =>
      intro t
      rw [List.foldl_cons, ih]
      by_cases hkey : e.1 = key
      · rw [List.find?_cons_of_pos (by simpa using hkey)]
        cases hget : t.get? key with
        | none => simp [has, hkey, hget, get?_put]
        | some b => simp [has, hkey, hget]
      · rw [List.find?_cons_of_neg (by simpa using hkey)]
        split
        · rfl
        · rw [get?_put, if_neg hkey]
  exact (hfold []).trans Option.none_or

/-- Of the entries that were put into a table the last one counts, and a former one if there is
none. -/
theorem get?_putAll (t : Table κ α) (es : List (κ × α)) (key : κ) :
    (t.putAll es).get? key =
      ((es.reverse.find? fun e => e.1 = key).map Prod.snd).or (t.get? key) := by
  induction es generalizing t with
  | nil => exact Option.none_or.symm
  | cons e es ih =>
    have hput : t.putAll (e :: es) = (t.put e.1 e.2).putAll es := rfl
    rw [hput, ih, get?_put, List.reverse_cons, List.find?_append]
    cases es.reverse.find? fun e => e.1 = key with
    | some b => rfl
    | none => by_cases hkey : e.1 = key <;> simp [hkey]

/-- In the table of entries of which the last counts. -/
theorem get?_ofLast (es : List (κ × α)) (key : κ) :
    (ofLast es).get? key = (es.reverse.find? fun e => e.1 = key).map Prod.snd := by
  rw [ofLast, get?_putAll]
  exact Option.or_none

theorem get?_ofLast_cons (e : κ × α) (es : List (κ × α)) (key : κ) :
    (ofLast (e :: es)).get? key =
      ((ofLast es).get? key).or (if e.1 = key then some e.2 else none) := by
  rw [get?_ofLast, get?_ofLast, List.reverse_cons, List.find?_append]
  cases es.reverse.find? fun e => e.1 = key with
  | some b => rfl
  | none => by_cases hkey : e.1 = key <;> simp [hkey]

/-- If no key is there twice, the entries are what their keys stand for. -/
theorem get?_eq_some_iff (h : t.keys.Nodup) : t.get? key = some a ↔ (key, a) ∈ t :=
  ⟨mem_of_get?, fun he => get?_of_mem h he⟩

/-- If no key is there twice, each of them stands for the same in another order. -/
theorem get?_reverse (h : t.keys.Nodup) (key : κ) : get? t.reverse key = t.get? key := by
  have hreverse : (keys t.reverse).Nodup := by
    rw [keys, List.map_reverse]
    exact (List.reverse_perm _).nodup_iff.2 h
  refine Option.ext fun a => ?_
  rw [get?_eq_some_iff hreverse, get?_eq_some_iff h, List.mem_reverse]

/-- What a key stands for in a table into which another one was put. -/
theorem get?_putAll_of_nodup {u : Table κ α} (hu : u.keys.Nodup) (t : Table κ α) (key : κ) :
    (t.putAll u).get? key = (u.get? key).or (t.get? key) := by
  rw [get?_putAll, ← get?_eq_find?, get?_reverse hu]

theorem get?_ofLast_of_nodup (h : t.keys.Nodup) (key : κ) : (ofLast t).get? key = t.get? key := by
  rw [ofLast, get?_putAll_of_nodup h]
  exact Option.or_none

theorem put_of_notMem (h : key ∉ t.keys) (a : α) : t.put key a = t ++ [(key, a)] := by
  induction t with
  | nil => rfl
  | cons e t ih =>
    obtain ⟨hne, hkey⟩ := not_or.1 (mt List.mem_cons.2 (show key ∉ e.1 :: keys t from h))
    rw [put, if_neg (Ne.symm hne), ih hkey]
    rfl

theorem ofLast_concat (es : List (κ × α)) (e : κ × α) :
    ofLast (es ++ [e]) = (ofLast es).put e.1 e.2 := List.foldl_concat ..

/-- Entries with different keys are a table as they are. -/
theorem ofLast_of_nodup (h : t.keys.Nodup) : ofLast t = t := by
  induction t using List.reverseRecOn with
  | nil => rfl
  | append_singleton t e ih =>
    rw [keys, List.map_append, List.map_singleton, List.nodup_append] at h
    have hkey : e.1 ∉ keys t := fun hmem => h.2.2 _ hmem _ List.mem_cons_self rfl
    rw [ofLast_concat, ih h.1, put_of_notMem hkey]

theorem nodup_keys_put (h : t.keys.Nodup) (key : κ) (a : α) : (t.put key a).keys.Nodup := by
  rw [keys_put]
  exact nodup_concat h key

theorem nodup_keys_putAll (h : t.keys.Nodup) (es : List (κ × α)) : (t.putAll es).keys.Nodup := by
  induction es generalizing t with
  | nil => exact h
  | cons e es ih => exact ih (nodup_keys_put h e.1 e.2)

/-! ## Values that are mapped -/

section MapValues

variable {β : Type v} (g : α → β)

/-- The values of a table are mapped; the keys stay where they are. -/
def mapValues (t : Table κ α) : Table κ β := t.map fun e => (e.1, g e.2)

omit [DecidableEq κ] in
@[simp] theorem mapValues_cons (e : κ × α) (t : Table κ α) :
    mapValues g (e :: t) = (e.1, g e.2) :: mapValues g t := rfl

omit [DecidableEq κ] in
@[simp] theorem values_mapValues (t : Table κ α) : (t.mapValues g).values = t.values.map g := by
  simp [mapValues, values]

@[simp] theorem get?_mapValues (t : Table κ α) (key : κ) :
    (t.mapValues g).get? key = (t.get? key).map g :=
  get?_map t (fun _ => g) key

@[simp] theorem has_mapValues (t : Table κ α) (key : κ) : (t.mapValues g).has key = t.has key := by
  rw [has, has, get?_mapValues, Option.isSome_map]

theorem put_mapValues (t : Table κ α) (key : κ) (a : α) :
    (t.mapValues g).put key (g a) = (t.put key a).mapValues g := by
  induction t with
  | nil => rfl
  | cons e t ih =>
    rw [mapValues_cons, put, put]
    split
    · rfl
    · exact congrArg _ ih

theorem erase_mapValues (t : Table κ α) (key : κ) :
    (t.mapValues g).erase key = (t.erase key).mapValues g := by
  rw [erase, mapValues, List.filter_map]
  rfl

omit [DecidableEq κ] in
/-- A table that is built up entry by entry. -/
theorem foldl_mapValues {step : Table κ α → κ × α → Table κ α}
    {step' : Table κ β → κ × β → Table κ β}
    (hstep : ∀ t e, step' (t.mapValues g) (e.1, g e.2) = (step t e).mapValues g)
    (es : List (κ × α)) (t : Table κ α) :
    (mapValues g es).foldl step' (t.mapValues g) = (es.foldl step t).mapValues g := by
  induction es generalizing t with
  | nil => rfl
  | cons e es ih =>
    rw [mapValues_cons, List.foldl_cons, List.foldl_cons, hstep]
    exact ih _

theorem ofLast_mapValues (es : List (κ × α)) : ofLast (mapValues g es) = (ofLast es).mapValues g :=
  foldl_mapValues g (fun t e => put_mapValues g t e.1 e.2) es []

theorem ofFirst_mapValues (es : List (κ × α)) :
    ofFirst (mapValues g es) = (ofFirst es).mapValues g := by
  refine foldl_mapValues g (fun t e => ?_) es []
  rw [has_mapValues]
  split
  · rfl
  · exact put_mapValues g t e.1 e.2

end MapValues

end Table

end GraphSchema
