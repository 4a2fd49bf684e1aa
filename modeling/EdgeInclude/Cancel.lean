import EdgeInclude.Text.Basic

/-!
# Giving requests up

Whoever owns a request holds a handle; everything done for the request watches a signal of that
handle. Cancelling the handle, or letting go of it, fires all its signals at once, now and later.

* `CancelHandle.signal`, `CancelHandle.cancel`, `CancelHandle.release` — what an owner does.
* `CancelSignal.fires` — whether a signal has fired, given its handle.
* `CancelSignal.departure` — when the request of a signal is given up.
-/

namespace EdgeInclude

/-- The handle of a request. -/
structure CancelHandle where
  cancelled : Bool
  /-- Whether the owner has let go of the handle. -/
  released : Bool
  deriving DecidableEq, Repr

/-- A signal: of a handle, or one that never fires. -/
inductive CancelSignal where
  | never
  | watching
  deriving DecidableEq, Repr

namespace CancelHandle

/-- The handle of a request that is wanted. -/
def new : CancelHandle := ⟨false, false⟩

/-- Gives the request up. -/
def cancel (h : CancelHandle) : CancelHandle := { h with cancelled := true }

/-- Lets go of the handle: the request is gone. -/
def release (_ : CancelHandle) : CancelHandle := ⟨true, true⟩

/-- A signal of the handle. -/
def signal (_ : CancelHandle) : CancelSignal := .watching

end CancelHandle

/-- Whether a signal has fired. -/
def CancelSignal.fires (h : CancelHandle) : CancelSignal → Bool
  | never => false
  | watching => h.cancelled

/-- When a request is given up. -/
inductive Departure where
  | never
  /-- It has been given up before anything is done for it. -/
  | already
  /-- It is given up after some milliseconds. -/
  | after (millis : Nat)
  deriving DecidableEq, Repr

namespace CancelSignal

/-- When the request of a signal is given up, whose owner lets go of the handle after some
milliseconds, or holds it to the end. -/
def departure (h : CancelHandle) (leaves : Option Nat) (s : CancelSignal) : Departure :=
  if s.fires h then .already
  else
    match leaves with
    | some n => if s.fires h.release then .after n else .never
    | none => .never

/-- **What has been given up in advance** is what has a signal that has fired. -/
theorem departure_eq_already_iff {h : CancelHandle} {leaves : Option Nat} {s : CancelSignal} :
    s.departure h leaves = .already ↔ s.fires h = true := by
  unfold departure
  cases s.fires h <;> cases leaves <;> cases s.fires h.release <;> simp

/-- **What is given up later** is what has a signal that fires when the owner lets go. -/
theorem departure_eq_after_iff {h : CancelHandle} {leaves : Option Nat} {s : CancelSignal}
    {n : Nat} : s.departure h leaves = .after n ↔
      leaves = some n ∧ s.fires h = false ∧ s.fires h.release = true := by
  unfold departure
  cases s.fires h <;> cases leaves <;> cases s.fires h.release <;> simp

end CancelSignal

end EdgeInclude
