/-!
# Ordered tables

A finite table that remembers the order in which its keys first came.  Writing to a key that is
already present keeps its place.
-/

namespace TaintFlow

/-- A table from keys to values, in the order in which the keys first came. -/
structure Table (κ : Type) (α : Type) where
  entries : List (κ × α) := []
  deriving Repr

namespace Table

variable {κ α β : Type} [DecidableEq κ]

instance : Inhabited (Table κ α) := ⟨{}⟩

/-- The value at a key. -/
def get? (t : Table κ α) (k : κ) : Option α :=
  t.entries.lookup k

/-- Whether a key is present. -/
def contains (t : Table κ α) (k : κ) : Bool :=
  (t.get? k).isSome

/-- The value at a key, or `d` when the key is absent. -/
def getD (t : Table κ α) (k : κ) (d : α) : α :=
  (t.get? k).getD d

/-- Writes `v` at the first entry with key `k`, or at the end. -/
def insertInto (k : κ) (v : α) : List (κ × α) → List (κ × α)
  | [] => [(k, v)]
  | (k', v') :: rest => if k' = k then (k', v) :: rest else (k', v') :: insertInto k v rest

/-- The table with value `v` at key `k`. -/
def insert (t : Table κ α) (k : κ) (v : α) : Table κ α :=
  ⟨insertInto k v t.entries⟩

/-- The table without the key `k`. -/
def erase (t : Table κ α) (k : κ) : Table κ α :=
  ⟨t.entries.filter fun entry => entry.1 ≠ k⟩

/-- The table with `f` applied to the value at `k`, taken to be `d` when `k` is absent. -/
def update (t : Table κ α) (k : κ) (d : α) (f : α → α) : Table κ α :=
  t.insert k (f (t.getD k d))

/-- The keys in order. -/
def keys (t : Table κ α) : List κ :=
  t.entries.map Prod.fst

/-- The values in the order of their keys. -/
def values (t : Table κ α) : List α :=
  t.entries.map Prod.snd

/-- The number of keys. -/
def size (t : Table κ α) : Nat :=
  t.entries.length

end Table

end TaintFlow
