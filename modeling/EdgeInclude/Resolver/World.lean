import EdgeInclude.Backend.Fetch
import EdgeInclude.Breaker
import EdgeInclude.FragmentCache
import EdgeInclude.Metrics

/-!
# What resolving works on

* `World` — backends and their surroundings, breakers, cached fragments, counters and the clock.
* `World.breaker`, `World.setBreaker` — the breaker of a source of a parsed page.
* `World.cached`, `World.keep` — cached fragments. Each access takes a nanosecond of the clock.
* `World.reaching` — the world at a later time.
-/

namespace EdgeInclude

/-- A source of a tag of a parsed page, all by number. -/
structure SourceId where
  page : Nat
  tag : Nat
  source : Nat
  deriving DecidableEq, Repr

/-- What resolving works on. -/
structure World (σ : Type) where
  reach : Reach σ
  /-- The time of the monotonic clock. -/
  now : Nat
  /-- The breakers of sources that have been asked. -/
  breakers : List (SourceId × Breaker)
  /-- The cached fragments, if fragments are cached. -/
  fragments : Option FragmentCache
  counts : FetchCounts
  deriving DecidableEq, Repr

namespace World

variable {σ : Type}

/-- A world in which nothing has happened. -/
def new (outside : σ) (stores : List (Nat × Store)) (now : Nat) (fragments : Option FragmentCache) :
    World σ :=
  ⟨⟨outside, stores⟩, now, [], fragments, .zero⟩

/-! ## 1. Breakers -/

/-- The breaker of a source; a fresh one, if the source has not been asked. -/
def breaker (w : World σ) (id : SourceId) : Breaker :=
  ((w.breakers.find? (·.1 == id)).map (·.2)).getD .fresh

/-- The world with a breaker in place of the one of a source. -/
def setBreaker (w : World σ) (id : SourceId) (b : Breaker) : World σ :=
  { w with breakers := (id, b) :: w.breakers.filter (·.1 != id) }

/-- The world with the breaker of a source changed. -/
def onBreaker (w : World σ) (id : SourceId) (f : Breaker → Breaker) : World σ :=
  w.setBreaker id (f (w.breaker id))

/-! ## 2. Cached fragments -/

/-- The cached fragment of a key. -/
def cached (w : World σ) (key : Text) : World σ × Option Bytes :=
  match w.fragments with
  | none => (w, none)
  | some c =>
    let (c, found) := c.get key w.now
    ({ w with fragments := some c, now := w.now + 1 }, found)

/-- The world with one more cached fragment. -/
def keep (w : World σ) (key : Text) (data : Bytes) (lifetime : Duration) : World σ :=
  match w.fragments with
  | none => w
  | some c => { w with fragments := some (c.put key data lifetime w.now), now := w.now + 1 }

/-! ## 3. Time -/

/-- The world at a time of the clock, which does not go back. -/
def reaching (w : World σ) (t : Nat) : World σ := { w with now := max w.now t }

/-! ## 4. Counters -/

/-- The world with its counters changed. -/
def count (w : World σ) (f : FetchCounts → FetchCounts) : World σ :=
  { w with counts := f w.counts }

end World

end EdgeInclude
