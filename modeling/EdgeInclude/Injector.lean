import EdgeInclude.Splice

/-!
# Replacing spans in a stream

An injector puts replacements into a page that arrives in chunks. The first chunk that is not empty
decides whether the page is text; a binary page passes unchanged. A page counts as binary when it
begins with the signature of a common binary format or has a zero byte near its beginning.

* `Payload.looksLikeText` — whether a page counts as text.
* `Injector.write` — the bytes that go out for a chunk.
* `Injector.finish` — fails if the page has ended before its last replacement was complete.
* `spliceChunk` — one chunk against the replacements that are still to come.
-/

namespace EdgeInclude

/-! ## 1. Text or binary data -/

namespace Payload

/-- How many bytes at the beginning of a payload are looked at. -/
def sniffLength : Nat := 512

/-- The signatures of binary formats. -/
def signatures : List Bytes :=
  [[0x89, 0x50, 0x4E, 0x47, 0x0D, 0x0A, 0x1A, 0x0A],
   [0x47, 0x49, 0x46, 0x38, 0x37, 0x61],
   [0x47, 0x49, 0x46, 0x38, 0x39, 0x61],
   [0xFF, 0xD8, 0xFF],
   [0x25, 0x50, 0x44, 0x46, 0x2D],
   [0x50, 0x4B, 0x03, 0x04],
   [0x1F, 0x8B],
   [0x52, 0x49, 0x46, 0x46],
   [0x4F, 0x67, 0x67, 0x53],
   [0x49, 0x44, 0x33],
   [0x00, 0x61, 0x73, 0x6D],
   [0x77, 0x4F, 0x46, 0x46],
   [0x77, 0x4F, 0x46, 0x32]]

/-- Whether a payload that begins with `head` counts as text. -/
def looksLikeText (head : Bytes) : Bool :=
  let head := head.take sniffLength
  !signatures.any (fun s => s.isPrefixOf head) && !head.contains 0

end Payload

/-! ## 2. One chunk -/

/-- The bytes that go out for a chunk at position `pos`, and how many of the replacements
it completes. Data goes out when the first byte of its span comes in. -/
def spliceChunk (pos : Nat) (chunk : Bytes) : List Replacement → Bytes × Nat
  | [] => (chunk, 0)
  | r :: rest =>
    let plain := chunk.take (r.start - pos)
    let chunk' := chunk.drop (r.start - pos)
    if chunk'.isEmpty then (plain, 0)
    else
      let data := if pos ≤ r.start then r.data else []
      -- the position of the first byte of `chunk'`
      let at' := max pos r.start
      if at' + chunk'.length < r.stop then (plain ++ data, 0)
      else
        let (out, n) := spliceChunk r.stop (chunk'.drop (r.stop - at')) rest
        (plain ++ data ++ out, n + 1)

/-! ## 3. The injector -/

/-- Whether replacements go into a page. -/
inductive Injector.Mode where
  | undecided
  | inject
  | bypass
  deriving DecidableEq, Repr

/-- An injector at a position of a page. `next` replacements are complete. -/
structure Injector where
  tags : Replacements
  next : Nat
  position : Nat
  mode : Injector.Mode
  deriving DecidableEq, Repr

namespace Injector

/-- An injector that has not begun. -/
def new (tags : Replacements) : Injector := ⟨tags, 0, 0, .undecided⟩

/-- An injector that lets everything pass. -/
def passing : Injector := ⟨.empty, 0, 0, .bypass⟩

def isBypassed (i : Injector) : Bool := i.mode == .bypass

/-- The replacements that are not complete. -/
def pending (i : Injector) : List Replacement := i.tags.items.drop i.next

/-- Number and span of the replacement that comes next; behind the last one, the position. -/
def current (i : Injector) : Nat × Nat × Nat :=
  match i.pending with
  | r :: _ => (i.next, r.start, r.stop)
  | [] => (i.next, i.position, i.position)

/-- The length of the page with its replacements, for a page of length `declared`. -/
def contentLength (i : Injector) (declared : UInt64) : Except Failure UInt64 :=
  if i.isBypassed then .ok declared else i.tags.adjust declared

/-- The mode that a first chunk decides. -/
def decided (i : Injector) (chunk : Bytes) : Mode :=
  match i.mode with
  | .undecided => if Payload.looksLikeText chunk then .inject else .bypass
  | m => m

/-- The bytes that go out for a chunk. -/
def write (i : Injector) (chunk : Bytes) : Injector × Bytes :=
  if chunk.isEmpty then (i, [])
  else
    let mode := i.decided chunk
    let position := i.position + chunk.length
    if mode == .bypass then ({ i with mode := mode, position := position }, chunk)
    else
      let (out, n) := spliceChunk i.position chunk i.pending
      ({ i with mode := mode, position := position, next := i.next + n }, out)

/-- All bytes that go out for chunks, one after the other. -/
def writeAll (i : Injector) : List Bytes → Injector × Bytes
  | [] => (i, [])
  | chunk :: rest =>
    let (i, out) := i.write chunk
    let (i, more) := writeAll i rest
    (i, out ++ more)

/-- The failure of an injector at the replacement that comes next. -/
def failure (i : Injector) (detail : String) : Failure :=
  .injection i.current.1 i.current.2.1 i.current.2.2 detail

/-- The end of the page: every replacement must be complete. -/
def finish (i : Injector) : Except Failure Unit :=
  if i.mode != .bypass && !i.pending.isEmpty then
    .error (i.failure s!"stream ended at offset {i.position}")
  else .ok ()

end Injector

end EdgeInclude
