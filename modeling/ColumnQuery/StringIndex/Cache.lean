import ColumnQuery.StringIndex.Offsets

/-! # Cached offset sets

Offset sets of one table, bounded in number. The sets most recently gotten are kept, and the one not
gotten for longest is evicted first. A registry keeps one cache for each table instance. -/

namespace ColumnQuery

/-- What an offset set was computed for. -/
structure CacheKey where
  needle : List UInt8
  kind : MatchKind
  deriving DecidableEq, Repr

/-- Cached offset sets of one table, most recently gotten first. -/
structure StringCache where
  capacity : Nat
  entries : List (CacheKey × List Nat) := []
  hits : Nat := 0
  misses : Nat := 0
  evictions : Nat := 0

namespace StringCache

/-- An empty cache; its capacity is at least one. -/
def ofCapacity (capacity : Nat) : StringCache :=
  { capacity := max capacity 1 }

/-- Offsets for a needle, from the cache or computed on the region. What is assumed of the bounded
map behind a cache is that getting a held key makes it the most recently used one, and that pushing
a new key makes it so and evicts the least recently used key of a full map. -/
def get (c : StringCache) (bytes : List UInt8) (key : CacheKey) : List Nat × StringCache :=
  match c.entries.lookup key with
  | some offsets =>
    let others := c.entries.filter (·.1 ≠ key)
    (offsets, { c with entries := (key, offsets) :: others, hits := c.hits + 1 })
  | none =>
    let offsets := findOffsets bytes key.needle key.kind
    let entries := (key, offsets) :: c.entries
    let kept := entries.take c.capacity
    (offsets,
      { c with
        entries := kept
        misses := c.misses + 1
        evictions := c.evictions + (entries.length - kept.length) })

/-- Whether an offset set is held. It is assumed that asking does not change which key was used
least recently. -/
def contains (c : StringCache) (key : CacheKey) : Bool :=
  (c.entries.lookup key).isSome

def size (c : StringCache) : Nat :=
  c.entries.length

/-- Share of the gets that were hits, zero before the first. -/
def hitRate (c : StringCache) : Float :=
  let hits := Float.ofNat c.hits
  let total := hits + Float.ofNat c.misses
  if 0.0 < total then hits / total else 0.0

end StringCache

/-- Caches by table instance, all of one capacity. -/
structure CacheRegistry where
  capacity : Nat
  caches : List (Nat × StringCache) := []

namespace CacheRegistry

/-- A registry without caches; its capacity is at least one. -/
def ofCapacity (capacity : Nat) : CacheRegistry :=
  { capacity := max capacity 1 }

def find? (r : CacheRegistry) (table : Nat) : Option StringCache :=
  r.caches.lookup table

/-- Cache of a table instance, empty at first use. -/
def cacheFor (r : CacheRegistry) (table : Nat) : StringCache :=
  (r.find? table).getD (.ofCapacity r.capacity)

def put (r : CacheRegistry) (table : Nat) (c : StringCache) : CacheRegistry :=
  { r with caches := (table, c) :: r.caches.filter (·.1 ≠ table) }

def get (r : CacheRegistry) (table : Nat) (bytes : List UInt8) (key : CacheKey) :
    List Nat × CacheRegistry :=
  let (offsets, c) := (r.cacheFor table).get bytes key
  (offsets, r.put table c)

def invalidate (r : CacheRegistry) (table : Nat) : CacheRegistry :=
  { r with caches := r.caches.filter (·.1 ≠ table) }

def contains (r : CacheRegistry) (table : Nat) : Bool :=
  (r.find? table).isSome

end CacheRegistry

end ColumnQuery
