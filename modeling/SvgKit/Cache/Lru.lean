import SvgKit.Failure

/-! A bounded store that gives up the least recently used entry first. A stored value may be
nothing at all, which looking it up does not tell from an absent one.
-/

namespace SvgKit

/-- The entries of a bounded store, the least recently used first. -/
structure Lru (κ α : Type) where
  capacity : Nat
  entries : List (κ × Option α)

namespace Lru

variable {κ α : Type} [DecidableEq κ]

/-- An empty store for at least one entry. -/
def empty (capacity : Int) : Except Failure (Lru κ α) :=
  if capacity < 1 then .error .emptyCache else .ok ⟨capacity.toNat, []⟩

/-- The keys, the least recently used first. -/
def keys (c : Lru κ α) : List κ := c.entries.map (·.1)

/-- The number of entries. -/
def size (c : Lru κ α) : Nat := c.entries.length

/-- There is an entry for the key. -/
def has (c : Lru κ α) (key : κ) : Bool := c.keys.contains key

/-- The entries for other keys. -/
def others (c : Lru κ α) (key : κ) : List (κ × Option α) := c.entries.filter (·.1 ≠ key)

/-- The value of a key, which becomes the most recently used one. -/
def get (c : Lru κ α) (key : κ) : Option α × Lru κ α :=
  match c.entries.lookup key with
  | none => (none, c)
  | some value => (value, { c with entries := c.others key ++ [(key, value)] })

/-- Stores a value under a key, which becomes the most recently used one; the least recently
used entries give way to it.
-/
def set (c : Lru κ α) (key : κ) (value : Option α) : Lru κ α :=
  let entries := c.others key ++ [(key, value)]
  { c with entries := entries.drop (entries.length - c.capacity) }

/-- Removes a key. The answer is true when it held a value. -/
def delete (c : Lru κ α) (key : κ) : Bool × Lru κ α :=
  ((c.entries.lookup key).join.isSome, { c with entries := c.others key })

/-- Removes all entries. -/
def clear (c : Lru κ α) : Lru κ α := { c with entries := [] }

end Lru

end SvgKit
