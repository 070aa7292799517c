import GraphSchema.Text.Basic

/-!
# Tables

A table maps keys to values and remembers the order in which its keys came. Putting a value under
a key that is present keeps the key's place.

## Main definitions

* `Table.get?`, `Table.put`, `Table.erase`, `Table.has`.
* `Table.ofFirst`, `Table.ofLast`: the table of a list of entries.
-/

namespace GraphSchema

universe u v

/-- Keys with their values, in the order of the keys; no key is twice in a table built by `put`. -/
abbrev Table (κ : Type u) (α : Type v) := List (κ × α)

namespace Table

variable {κ : Type u} {α : Type v}

/-- The keys in order. -/
def keys (t : Table κ α) : List κ := t.map Prod.fst

/-- The values in the order of their keys. -/
def values (t : Table κ α) : List α := t.map Prod.snd

variable [DecidableEq κ]

/-- The value under a key. -/
def get? : Table κ α → κ → Option α
  | [], _ => none
  | (k, a) :: rest, key => if k = key then some a else get? rest key

/-- Whether a key is present. -/
def has (t : Table κ α) (key : κ) : Bool := (t.get? key).isSome

/-- Puts a value under a key: in the place of the former value, or else at the end. -/
def put : Table κ α → κ → α → Table κ α
  | [], key, a => [(key, a)]
  | (k, b) :: rest, key, a => if k = key then (k, a) :: rest else (k, b) :: put rest key a

/-- Without a key. -/
def erase (t : Table κ α) (key : κ) : Table κ α := t.filter fun entry => entry.1 ≠ key

/-- The entries of one table put into another in order. -/
def putAll (t : Table κ α) (entries : Table κ α) : Table κ α :=
  entries.foldl (fun t entry => t.put entry.1 entry.2) t

/-- The table of entries in order; of a key that comes again, the first entry counts. -/
def ofFirst (entries : List (κ × α)) : Table κ α :=
  entries.foldl (fun t entry => if t.has entry.1 then t else t.put entry.1 entry.2) []

/-- The table of entries in order; of a key that comes again, the last entry counts, in the place of
the first. -/
def ofLast (entries : List (κ × α)) : Table κ α := putAll [] entries

end Table

end GraphSchema
