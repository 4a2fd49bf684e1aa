import EdgeInclude.Backend.Program
import EdgeInclude.Backend.Registry
import EdgeInclude.Backend.Store
import EdgeInclude.Backend.Web

/-!
# Asking a backend

Backends reach out of the engine: to the network, to programs, to code that is brought along. What
lies there is a value with operations on it, so that a run is a function of it.

* `Surroundings` — what lies outside, on a state that operations may change.
* `Reach` — the outside and the stores of the engine.
* `Backend.fetch` — the answer of a backend to a call.
-/

namespace EdgeInclude

/-- What lies outside of the engine. -/
structure Surroundings (σ : Type) where
  /-- What the network brings, and after how many milliseconds; never, if it does not answer. -/
  network : Outgoing → σ → σ × Option Nat × Delivery
  /-- What a program does with its input. -/
  program : Text → Bytes → σ → σ × ProgramRun
  /-- What a backend that is brought along answers. -/
  custom : Nat → Call → σ → σ × Answer
  /-- A backend that is brought along is told to close. -/
  close : Nat → σ → σ
  /-- How far the monotonic clock goes in a millisecond of the timers, in nanoseconds: a million of
  them, unless it is held. -/
  pace : Nat

/-- The state of the outside, and the stores of the engine by number. -/
structure Reach (σ : Type) where
  outside : σ
  stores : List (Nat × Store)
  deriving DecidableEq, Repr

namespace Reach

variable {σ : Type}

/-- The store of a number; an empty one, if it has not been used. -/
def store (r : Reach σ) (id : Nat) : Store :=
  ((r.stores.find? (·.1 == id)).map (·.2)).getD .empty

/-- The store of a number, changed. -/
def setStore (r : Reach σ) (id : Nat) (s : Store) : Reach σ :=
  { r with stores := (id, s) :: r.stores.filter (·.1 != id) }

end Reach

namespace Backend

variable {σ : Type}

/-- The answer of a backend to a call. -/
def fetch (w : Surroundings σ) (r : Reach σ) (c : Call) : Backend → Reach σ × Answer
  | web base =>
    match Web.target base c with
    | .error e => (r, ⟨some 0, .error e⟩)
    | .ok url =>
      let (o, after, delivery) := w.network (Web.request url c) r.outside
      ({ r with outside := o }, ⟨after, Web.judge url c.maxBody delivery⟩)
  | program configured =>
    match Program.path configured c with
    | .error e => (r, ⟨some 0, .error e⟩)
    | .ok path =>
      let (o, run) := w.program path (Program.input c) r.outside
      ({ r with outside := o }, Program.judge path c run)
  | store id => (r, ⟨some 0, (r.store id).answer c⟩)
  | custom id _ =>
    let (o, a) := w.custom id c r.outside
    ({ r with outside := o }, a)

/-- Tells a backend to close. -/
def close (w : Surroundings σ) (r : Reach σ) : Backend → Reach σ
  | custom id _ => { r with outside := w.close id r.outside }
  | _ => r

end Backend

/-- Tells all backends of a registry to close, once for each name. -/
def Registry.closeAll {σ : Type} (g : Registry) (w : Surroundings σ) (r : Reach σ) : Reach σ :=
  (g.schemes ++ g.aliases).foldl (fun r (_, b) => b.close w r) r

end EdgeInclude
