import EdgeInclude.Duration

/-!
# Cached fragments

Fetched fragments are kept for their lifetime. A cache with a limit drops expired fragments first,
then those that have not been used for the longest time. A lifetime that ends beyond what the clock
can tell breaks the cache: nobody gets at what it holds any more, and nothing is stored.

* `Fragment.keyOf` — the address of a fragment, and its key if it has one.
* `FragmentCache.get`, `FragmentCache.put` — at a time of the monotonic clock.
* `FragmentCache.evict` — drops the least recently used entries until enough bytes are free.
* `FragmentCache.horizon` — the first time that the clock cannot tell.
-/

namespace EdgeInclude

/-- A fragment in a cache. -/
structure Fragment where
  key : Text
  data : Bytes
  /-- The time from which on the fragment is of no use. -/
  expires : Nat
  deriving DecidableEq, Repr

/-- The key that a fragment is kept under. -/
def Fragment.keyOf (url : Text) (key : Option Text) : Text :=
  match key with
  | some k => url ++ '#' :: k
  | none => url

/-- A cache of fragments. The entries stand in the order of their last use, the oldest first. -/
structure FragmentCache where
  entries : List Fragment
  /-- The recorded total size of the entries. -/
  size : Nat
  limit : Option Nat
  hits : UInt64
  misses : UInt64
  /-- Whether a put has broken off while it changed the entries. -/
  broken : Bool
  deriving DecidableEq, Repr

namespace FragmentCache

/-- A cache without entries. -/
def new (limit : Option Nat) : FragmentCache := ⟨[], 0, limit, 0, 0, false⟩

/-! ## 1. Entries -/

/-- The entry of a key. -/
def find? (c : FragmentCache) (key : Text) : Option Fragment := c.entries.find? (·.key == key)

/-- The cache without the entry of a key. -/
def drop (c : FragmentCache) (key : Text) : FragmentCache :=
  match c.find? key with
  | some e =>
    { c with entries := c.entries.filter (·.key != key), size := c.size - e.data.length }
  | none => c

/-- The cache with one more entry, as the last one used. -/
def push (c : FragmentCache) (e : Fragment) : FragmentCache :=
  { c with entries := c.entries ++ [e], size := c.size + e.data.length }

/-! ## 2. Making room -/

/-- The cache without the entries that have expired. -/
def expire (c : FragmentCache) (now : Nat) : FragmentCache :=
  let (gone, kept) := c.entries.partition fun e => e.expires ≤ now
  { c with entries := kept, size := c.size - gone.foldr (·.data.length + ·) 0 }

/-- The first entries whose sizes add up to `needed`, counted, and their sizes. -/
def prefixFor (needed : Nat) : List Fragment → Nat × Nat
  | [] => (0, 0)
  | e :: rest =>
    if needed = 0 then (0, 0)
    else
      let (n, freed) := prefixFor (needed - e.data.length) rest
      (n + 1, e.data.length + freed)

/-- The cache without the least recently used entries that free `needed` bytes. -/
def evict (c : FragmentCache) (needed : Nat) : FragmentCache :=
  let (n, freed) := prefixFor needed c.entries
  { c with entries := c.entries.drop n, size := c.size - freed }

/-- The cache with room for `size` more bytes. -/
def makeRoom (c : FragmentCache) (size now : Nat) : FragmentCache :=
  match c.limit with
  | none => c
  | some max =>
    let c := if max < c.size + size then c.expire now else c
    if max < c.size + size then c.evict (c.size + size - max) else c

/-! ## 3. Operations -/

/-- The fragment of a key, unless it has expired; it is the last one used now. -/
def get (c : FragmentCache) (key : Text) (now : Nat) : FragmentCache × Option Bytes :=
  match c.find? key with
  | some e =>
    if now < e.expires then ({ (c.drop key).push e with hits := c.hits + 1 }, some e.data)
    else ({ c.drop key with misses := c.misses + 1 }, none)
  | none => ({ c with misses := c.misses + 1 }, none)

/-- Whether a fragment larger than the whole cache is refused. -/
def refuses (c : FragmentCache) (size : Nat) : Bool :=
  match c.limit with
  | some max => max < size
  | none => false

/-- The first time that the clock cannot tell: its seconds are a word with a sign. -/
def horizon : Nat := (1 <<< 63) * 1000000000

/-- The cache that a put has broken. What it held is out of reach. -/
def breakDown (c : FragmentCache) : FragmentCache :=
  { c with entries := [], size := 0, broken := true }

/-- Stores a fragment for a lifetime that is not zero. -/
def put (c : FragmentCache) (key : Text) (data : Bytes) (lifetime : Duration) (now : Nat) :
    FragmentCache :=
  if lifetime == 0 || c.refuses data.length then c
  else if c.broken || horizon ≤ now + lifetime then c.breakDown
  else ((c.drop key).makeRoom data.length now).push ⟨key, data, now + lifetime⟩

/-- Removes the fragment of a key; tells whether there was one. -/
def remove (c : FragmentCache) (key : Text) : FragmentCache × Bool :=
  (c.drop key, (c.find? key).isSome)

/-- Removes all fragments. -/
def clear (c : FragmentCache) : FragmentCache := { c with entries := [], size := 0 }

end FragmentCache

end EdgeInclude
