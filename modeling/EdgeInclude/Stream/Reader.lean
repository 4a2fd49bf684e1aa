import EdgeInclude.Text.Basic

/-!
# Readers

A reader hands out a byte string in pieces. A piece without bytes is the end of the
input, and a piece that does not fit into the buffer goes on in the next read.

* `Reader.drain` — the pieces that are read until the end, and the failure that ends
  the reading if there is one.
-/

namespace EdgeInclude

/-- What a reader will hand out: bytes, or the message of a failure. -/
abbrev Reader := List (Except String Bytes)

namespace Reader

/-- The number of bytes that one read takes at most. -/
def bufferSize : Nat := 8192

/-- A byte string in pieces of `n + 1` bytes; the last piece may be shorter. -/
def slice (n : Nat) (s : Bytes) : List Bytes :=
  if h : s = [] then [] else s.take (n + 1) :: slice n (s.drop (n + 1))
termination_by s.length
decreasing_by
  have := List.length_pos_iff.2 h
  simp only [List.length_drop]
  omega

/-- What reading to the end gives: the pieces in order, and the failure after them. -/
structure Drained where
  pieces : List Bytes
  failure : Option String
  deriving DecidableEq, Repr

/-- Reads until the input ends or fails. -/
def drain : Reader → Drained
  | [] => ⟨[], none⟩
  | .error e :: _ => ⟨[], some e⟩
  | .ok [] :: _ => ⟨[], none⟩
  | .ok s :: rest => ⟨slice (bufferSize - 1) s ++ (drain rest).pieces, (drain rest).failure⟩

theorem flatten_slice (n : Nat) (s : Bytes) : (slice n s).flatten = s := by
  fun_induction slice n s with
  | case1 => rfl
  | case2 s h ih => simp [ih]

end Reader

end EdgeInclude
