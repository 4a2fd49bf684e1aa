import EdgeInclude.Duration

/-!
# Circuit breakers

A breaker keeps a source from being asked again and again while it fails. After enough failures
in a row it opens for a time that grows with their number; then one request at a time may probe
the source.

* `BreakerPolicy.wait` — how long a breaker stays open.
* `Breaker.state` — closed, open or half-open at a time.
* `Breaker.grant` — whether a request may go through. A probe takes the time of its admission
  as the time of the last failure, so that no second one goes through with it.
* `Breaker.release` — gives a probe back that has told nothing about the source.

Times are read from a monotonic clock, in nanoseconds; zero stands for no failure.
-/

namespace EdgeInclude

/-! ## 1. Policies -/

/-- When a breaker opens and for how long. -/
structure BreakerPolicy where
  /-- Failures in a row that open a breaker. -/
  maxFailures : Nat
  /-- The failure after which the waiting time grows no more. -/
  maxBackoffs : Nat
  /-- The unit of the waiting time. -/
  base : Duration
  deriving DecidableEq, Repr

namespace BreakerPolicy

/-- Twelve failures, twelve doublings of one second. -/
def standard : BreakerPolicy := ⟨12, 12, 1000000000⟩

/-- The longest duration that can be told. -/
def longest : Duration := ((1 <<< 64) - 1) * 1000000000 + 999999999

/-- The waiting time after a number of failures: doubled with each, up to a limit. -/
def backoff (p : BreakerPolicy) (failures : Nat) : Duration :=
  min (p.base * (1 <<< min (min failures p.maxBackoffs) 31)) longest

/-- The waiting time as a word of 64 bits. -/
def wait (p : BreakerPolicy) (failures : Nat) : Nat := p.backoff failures % (1 <<< 64)

end BreakerPolicy

/-! ## 2. Breakers -/

/-- The breaker of one source. -/
structure Breaker where
  failures : Nat
  /-- The time of the last failure or probe. -/
  lastFailure : Nat
  deriving DecidableEq, Repr

/-- What a breaker lets through. -/
inductive Circuit where
  | closed
  | opened
  | halfOpen
  deriving DecidableEq, Repr

/-- How a request got through: as any other, or as the probe of a half-open breaker. -/
inductive Admission where
  | normal
  | probe (previous claimed : Nat)
  deriving DecidableEq, Repr

namespace Breaker

/-- A breaker that has seen no failure. -/
def fresh : Breaker := ⟨0, 0⟩

/-- The largest number of failures that is counted. -/
def maxCount : Nat := (1 <<< 32) - 1

/-- One more failure. -/
def fail (b : Breaker) (now : Nat) : Breaker := ⟨min (b.failures + 1) maxCount, now⟩

/-- A success: the failures before it no longer count. -/
def succeed (b : Breaker) : Breaker := if b.failures == 0 then b else fresh

/-- The state of a breaker at a time. -/
def state (b : Breaker) (p : BreakerPolicy) (now : Nat) : Circuit :=
  if b.failures < p.maxFailures then .closed
  else if p.wait b.failures ≤ now - b.lastFailure then .halfOpen
  else .opened

/-- Asks a breaker to let a request through. -/
def grant (b : Breaker) (p : BreakerPolicy) (now : Nat) : Breaker × Option Admission :=
  match b.state p now with
  | .closed => (b, some .normal)
  | .opened => (b, none)
  | .halfOpen => ({ b with lastFailure := now }, some (.probe b.lastFailure now))

/-- Gives a probe back, if it is still the last thing that happened. -/
def release (b : Breaker) : Admission → Breaker
  | .normal => b
  | .probe previous claimed =>
    if b.lastFailure == claimed then { b with lastFailure := previous } else b

end Breaker

end EdgeInclude
