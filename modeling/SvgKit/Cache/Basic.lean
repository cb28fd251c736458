import SvgKit.Cache.Lru
import SvgKit.Cache.Sha256
import SvgKit.Json.Basic
import SvgKit.Optimize.Metrics

/-! A cache of results by content and options that counts its hits and misses. -/

namespace SvgKit

/-- The text that identifies content and options: the content without the blanks at its ends,
a bar and the compact form of the options. Absent options count as empty ones.
-/
def cacheKeyText (content : Text) (options : Option Json) : Text :=
  Text.trim content ++ "|" ++ (options.getD (.object [])).compact

/-- The key of content and options. -/
def cacheKey (content : Text) (options : Option Json) : Text :=
  Sha256.hexDigest (cacheKeyText content options).utf8Bytes

/-- A store of results with the number of lookups that found one and that did not. -/
structure Cache (α : Type) where
  store : Lru Text α
  hits : Nat := 0
  misses : Nat := 0

namespace Cache

variable {α : Type}

/-- An empty cache for at least one result. -/
def empty (capacity : Int) : Except Failure (Cache α) :=
  (Lru.empty capacity).map fun store => { store }

/-- Looks a result up, and counts that. -/
def get (c : Cache α) (content : Text) (options : Option Json) : Option α × Cache α :=
  match c.store.get (cacheKey content options) with
  | (some value, store) => (some value, { c with store, hits := c.hits + 1 })
  | (none, store) => (none, { c with store, misses := c.misses + 1 })

/-- Stores a result. -/
def set (c : Cache α) (content : Text) (options : Option Json) (value : α) : Cache α :=
  { c with store := c.store.set (cacheKey content options) value }

/-- There is a result. -/
def has (c : Cache α) (content : Text) (options : Option Json) : Bool :=
  c.store.has (cacheKey content options)

/-- Starts counting anew. -/
def resetStats (c : Cache α) : Cache α := { c with hits := 0, misses := 0 }

/-- Removes all results and starts counting anew. -/
def clear (c : Cache α) : Cache α := resetStats { c with store := c.store.clear }

/-- The part of the lookups that found a result, in percent. -/
def hitRate (c : Cache α) : Text := Optimize.Metrics.percent c.hits (c.hits + c.misses)

/-- The statistics in the order in which they are shown. -/
def statsJson (c : Cache α) : Json :=
  .object
    [ ("hits", .int c.hits),
      ("misses", .int c.misses),
      ("size", .int c.store.size),
      ("max_size", .int c.store.capacity),
      ("hit_rate", .string c.hitRate) ]

end Cache

end SvgKit
