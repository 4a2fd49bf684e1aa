import EdgeInclude.Page.Fingerprint

/-!
# Caches of parsed pages

Two kinds of cache keep a value for each fingerprint and answer alike.

* `Table` — one table of fingerprints and values.
* `ReadMostly` — a table that readers share, and an overlay of newer entries that is merged
  into it after enough misses.
* `PageCache` — a cache of either kind.
-/

namespace EdgeInclude

/-! ## 1. Tables -/

/-- Values by fingerprint; each fingerprint at most once. -/
abbrev Table (α : Type) := List (Fingerprint × α)

namespace Table

variable {α : Type}

def get? (t : Table α) (fp : Fingerprint) : Option α := (t.find? (·.1 == fp)).map (·.2)

def contains (t : Table α) (fp : Fingerprint) : Bool := (get? t fp).isSome

def remove (t : Table α) (fp : Fingerprint) : Table α := t.filter (·.1 != fp)

def insert (t : Table α) (fp : Fingerprint) (a : α) : Table α := (fp, a) :: remove t fp

/-- All entries of both tables; those of `more` go first. -/
def merge (t more : Table α) : Table α := more.foldr (fun (fp, a) t => insert t fp a) t

end Table

/-! ## 2. Read-mostly caches -/

/-- A table that readers share, with an overlay of newer entries. -/
structure ReadMostly (α : Type) where
  clean : Table α
  overlay : Table α
  /-- Look-ups in the overlay since it was last merged. -/
  misses : Nat
  /-- Whether the overlay may hold entries. -/
  amended : Bool
  deriving DecidableEq, Repr

namespace ReadMostly

variable {α : Type}

def empty : ReadMostly α := ⟨[], [], 0, false⟩

/-- Merges the overlay into the table and changes the result with `edit`. -/
def promote (c : ReadMostly α) (edit : Table α → Table α) : ReadMostly α :=
  ⟨edit (c.clean.merge c.overlay), [], 0, false⟩

/-- Looks a fingerprint up. The overlay is merged once it has been looked into as often as it has
entries. -/
def get (c : ReadMostly α) (fp : Fingerprint) : ReadMostly α × Option α :=
  match c.clean.get? fp with
  | some a => (c, some a)
  | none =>
    if !c.amended then (c, none)
    else
      let found := c.overlay.get? fp
      let c := { c with misses := c.misses + 1 }
      if c.overlay.length ≤ c.misses then (c.promote id, found) else (c, found)

/-- Stores a value. An entry of the shared table is replaced at once. -/
def insert (c : ReadMostly α) (fp : Fingerprint) (a : α) : ReadMostly α :=
  if c.clean.contains fp then c.promote fun t => t.insert fp a
  else { c with overlay := c.overlay.insert fp a, amended := true }

/-- Whether there was an entry to remove. -/
def remove (c : ReadMostly α) (fp : Fingerprint) : ReadMostly α × Bool :=
  if c.overlay.contains fp || c.clean.contains fp then (c.promote fun t => t.remove fp, true)
  else (c, false)

def clear (c : ReadMostly α) : ReadMostly α := { c with overlay := [] }.promote fun _ => []

def length (c : ReadMostly α) : Nat := c.clean.length + c.overlay.length

end ReadMostly

/-! ## 3. Caches of either kind -/

/-- The kind of a cache. -/
inductive CacheKind where
  | locked
  | readMostly
  deriving DecidableEq, Repr

/-- A cache of either kind. -/
inductive PageCache (α : Type) where
  | locked (t : Table α)
  | readMostly (c : ReadMostly α)
  deriving DecidableEq, Repr

namespace PageCache

variable {α : Type}

/-- A cache without entries. -/
def new : CacheKind → PageCache α
  | .locked => .locked []
  | .readMostly => .readMostly .empty

/-- Looks a fingerprint up. -/
def get (fp : Fingerprint) : PageCache α → PageCache α × Option α
  | locked t => (locked t, t.get? fp)
  | readMostly c => (readMostly (c.get fp).1, (c.get fp).2)

/-- Stores a value. -/
def insert (fp : Fingerprint) (a : α) : PageCache α → PageCache α
  | locked t => locked (t.insert fp a)
  | readMostly c => readMostly (c.insert fp a)

/-- Removes an entry; tells whether there was one. -/
def remove (fp : Fingerprint) : PageCache α → PageCache α × Bool
  | locked t => (locked (t.remove fp), t.contains fp)
  | readMostly c => (readMostly (c.remove fp).1, (c.remove fp).2)

/-- Removes all entries. -/
def clear : PageCache α → PageCache α
  | locked _ => locked []
  | readMostly c => readMostly c.clear

def length : PageCache α → Nat
  | locked t => t.length
  | readMostly c => c.length

def isEmpty (c : PageCache α) : Bool := c.length == 0

end PageCache

end EdgeInclude
