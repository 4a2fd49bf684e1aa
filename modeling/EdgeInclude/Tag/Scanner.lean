import EdgeInclude.Failure
import EdgeInclude.Stream.Reader
import EdgeInclude.Tag.Raw

/-!
# Finding tags in a stream

A scanner reads a page byte by byte, in chunks of any size, and reports every tag
that a chunk completes. It holds no more of the page than the interior of the tag it
is in, which may not grow past a largest size.

* `Scanner.step` — one byte.
* `Scanner.feed` — one chunk: the tags it completes, or the failure that ends it.
* `scan` — a whole page, read by a fresh scanner.
* `ScannerPool` — scanners kept for later use, always in their first state.
-/

namespace EdgeInclude

/-! ## 1. The scanner -/

/-- How much of an opening or closing mark has been read. -/
inductive Stage where
  | outside
  | mark1
  | mark2
  | mark3
  | mark4
  | inside
  | slash
  deriving DecidableEq, Repr

/-- A scanner at a position of a page. -/
structure Scanner where
  /-- The largest interior that a tag may have. -/
  maxSize : Nat
  stage : Stage
  /-- The interior so far of the tag that is being read. -/
  held : Array UInt8
  /-- The number of bytes read. -/
  position : Nat
  /-- Where the tag that is being read opens. -/
  tagStart : Nat
  deriving DecidableEq, Repr

namespace Scanner

/-- A scanner that has read nothing. -/
def new (maxSize : Nat) : Scanner := ⟨maxSize, .outside, #[], 0, 0⟩

/-- The scanner before it has read anything. -/
def reset (s : Scanner) : Scanner := new s.maxSize

/-- Whether a tag may have been opened and is not closed. -/
def inTag (s : Scanner) : Bool := s.stage != .outside

/-- What one byte brings. -/
inductive Event where
  | quiet
  | found (tag : RawTag)
  | tooLong
  deriving DecidableEq, Repr

/-- Gives up the mark that is being read; the byte itself may open a new one. -/
def restart (s : Scanner) (b : UInt8) : Scanner :=
  if b == 0x3C then { s with stage := .mark1, tagStart := s.position }
  else { s with stage := .outside }

/-- The next byte of the opening mark, or a new start. -/
def expect (s : Scanner) (b want : UInt8) (next : Stage) : Scanner :=
  if b == want then { s with stage := next } else s.restart b

/-- One more byte of the interior, if there is room for it. -/
def hold? (s : Scanner) (b : UInt8) : Option Scanner :=
  if s.held.size < s.maxSize then some { s with held := s.held.push b } else none

/-- The scanner behind the byte that it has just read. -/
def advance (s : Scanner) : Scanner := { s with position := s.position + 1 }

/-- Reads one byte. A byte for which there is no room is not counted as read. -/
def step (s : Scanner) (b : UInt8) : Scanner × Event :=
  match s.stage with
  | .outside =>
    if b == 0x3C then
      ({ s with stage := .mark1, tagStart := s.position }.advance, .quiet)
    else (s.advance, .quiet)
  | .mark1 => ((s.expect b 0x65 .mark2).advance, .quiet)
  | .mark2 => ((s.expect b 0x73 .mark3).advance, .quiet)
  | .mark3 => ((s.expect b 0x69 .mark4).advance, .quiet)
  | .mark4 =>
    if b == 0x3A then ({ s with stage := .inside, held := #[] }.advance, .quiet)
    else ((s.restart b).advance, .quiet)
  | .inside =>
    if b == 0x2F then ({ s with stage := .slash }.advance, .quiet)
    else match s.hold? b with
      | some s' => (s'.advance, .quiet)
      | none => (s, .tooLong)
  | .slash =>
    if b == 0x3E then
      ({ s with stage := .outside, held := #[] }.advance,
        .found ⟨s.held.toList, s.tagStart, s.position + 1⟩)
    else match s.hold? 0x2F with
      | none => (s, .tooLong)
      | some s' =>
        if b == 0x2F then (s'.advance, .quiet)
        else match s'.hold? b with
          | some s'' => ({ s'' with stage := .inside }.advance, .quiet)
          | none => (s', .tooLong)

/-- The failure of a scanner that has no room for a byte. -/
def tooLong (s : Scanner) : Failure := .malformedTag s.tagStart s.maxSize

/-- `feed` with the tags found so far, the last one first. -/
def feedFrom (s : Scanner) (found : List RawTag) :
    Bytes → Scanner × Except Failure (List RawTag)
  | [] => (s, .ok found.reverse)
  | b :: rest =>
    match s.step b with
    | (s', .quiet) => feedFrom s' found rest
    | (s', .found t) => feedFrom s' (t :: found) rest
    | (s', .tooLong) => (s', .error s'.tooLong)

/-- Reads one chunk: the tags that it completes, in order. A failing chunk is read up to
the byte that there is no room for, and its tags are lost. -/
def feed (s : Scanner) (chunk : Bytes) : Scanner × Except Failure (List RawTag) :=
  feedFrom s [] chunk

/-- Reads chunks until one fails. -/
def feedAll (s : Scanner) : List Bytes → Scanner × Except Failure (List RawTag)
  | [] => (s, .ok [])
  | chunk :: rest =>
    match s.feed chunk with
    | (s', .error e) => (s', .error e)
    | (s', .ok tags) =>
      match feedAll s' rest with
      | (s'', .ok more) => (s'', .ok (tags ++ more))
      | (s'', .error e) => (s'', .error e)

end Scanner

/-- The tags of a page, in order. -/
def scan (maxSize : Nat) (page : Bytes) : Except Failure (List RawTag) :=
  ((Scanner.new maxSize).feed page).2

/-! ## 2. Scanners kept for later use -/

/-- Scanners of one size that are not in use, the last one returned first. -/
structure ScannerPool where
  maxSize : Nat
  idle : List Scanner
  deriving DecidableEq, Repr

namespace ScannerPool

/-- A pool without idle scanners. -/
def new (maxSize : Nat) : ScannerPool := ⟨maxSize, []⟩

/-- A scanner from the pool, or a fresh one if none is idle. -/
def take (p : ScannerPool) : Scanner × ScannerPool :=
  match p.idle with
  | [] => (.new p.maxSize, p)
  | s :: rest => (s, { p with idle := rest })

/-- Returns a scanner; it forgets what it has read. -/
def give (p : ScannerPool) (s : Scanner) : ScannerPool := { p with idle := s.reset :: p.idle }

/-- Scans a whole page. -/
def scan (p : ScannerPool) (page : Bytes) : Except Failure (List RawTag) × ScannerPool :=
  let (s, p) := p.take
  let (s, result) := s.feed page
  (result, p.give s)

/-- Scans what a reader hands out, piece by piece. -/
def scanReader (p : ScannerPool) (r : Reader) : Except Failure (List RawTag) × ScannerPool :=
  let (s, p) := p.take
  let input := r.drain
  let (s, result) := s.feedAll input.pieces
  match result, input.failure with
  | .ok _, some e => (.error (.io e), p.give s)
  | result, _ => (result, p.give s)

end ScannerPool

end EdgeInclude
