import EdgeInclude.Injector
import EdgeInclude.Stream.Reader

/-!
# Copying a page with replacements

* `Sink` — where bytes go: each call takes some of them, until one fails.
* `copy` — reads a page to its end and puts it into a sink, with its replacements.
-/

namespace EdgeInclude

/-! ## 1. Sinks -/

/-- A place that bytes are written to. A call on a sink that holds `n` bytes takes at most
`accepts n` more; zero means that the call fails. -/
structure Sink where
  accepts : Nat → Nat
  held : Array UInt8
  /-- The message of a call that fails. -/
  refusal : String
  /-- The message of a flush, if it fails. -/
  flushRefusal : Option String

namespace Sink

/-- An empty sink that takes at most `step` bytes in a call, and no more than `room` in all. -/
def limited (step : Nat) (room : Option Nat) (refusal : String) (flushRefusal : Option String) :
    Sink where
  accepts n := match room with
    | some m => min step (m - n)
    | none => step
  held := #[]
  refusal := refusal
  flushRefusal := flushRefusal

/-- Writes all bytes, in as many calls as it takes; the message if one fails. -/
def writeAll (s : Sink) (bytes : Bytes) : Sink × Option String :=
  if _more : bytes = [] then (s, none)
  else if _taken : s.accepts s.held.size = 0 then (s, some s.refusal)
  else
    writeAll { s with held := s.held ++ bytes.take (s.accepts s.held.size) }
      (bytes.drop (s.accepts s.held.size))
termination_by bytes.length
decreasing_by
  have := List.length_pos_iff.2 _more
  simp only [List.length_drop]
  omega

end Sink

/-! ## 2. Copying -/

/-- `copy` of the pieces that have been read. -/
def copyPieces (i : Injector) (s : Sink) (written : Nat) :
    List Bytes → (Injector × Sink × Nat) × Option Failure
  | [] => ((i, s, written), none)
  | piece :: rest =>
    let (i', out) := i.write piece
    match s.writeAll out with
    | (s', some e) => ((i', s', written), some (i.failure s!"write: {e}"))
    | (s', none) => copyPieces i' s' (written + out.length) rest

/-- Reads a page to its end and writes it with its spans replaced. The result is the number of
bytes written; a failure names the replacement that comes next. -/
def copy (r : Reader) (s : Sink) (tags : Replacements) : Sink × Except Failure Nat :=
  let input := r.drain
  match copyPieces (.new tags) s 0 input.pieces with
  | ((_, s, _), some f) => (s, .error f)
  | ((i, s, written), none) =>
    match input.failure with
    | some e => (s, .error (i.failure s!"read: {e}"))
    | none =>
      match i.finish, s.flushRefusal with
      | .error f, _ => (s, .error f)
      | .ok _, some e => (s, .error (i.failure s!"flush: {e}"))
      | .ok _, none => (s, .ok written)

end EdgeInclude
