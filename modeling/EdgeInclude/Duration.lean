import EdgeInclude.Number.Decimal

/-!
# Durations

A duration is a number of nanoseconds. Tags write it as numbers with units, such as
`300ms`, `1.5s` or `2m30s`.

* `Duration.read?` — a bare `0`, or segments of a number and a unit whose sum fits
  into 64 bits.
* `Duration.segments?` — the segments of a text, split before their units are known.
* `Duration.text` — the short form that messages show.

The sum is taken in binary floating point, from left to right.
-/

namespace EdgeInclude

/-- A duration in nanoseconds. -/
abbrev Duration := Nat

namespace Duration

/-! ## 1. Units -/

def ofMillis (n : Nat) : Duration := n * 1000000

def ofSeconds (n : Nat) : Duration := n * 1000000000

/-- Whole milliseconds, rounded down. -/
def millis (d : Duration) : Nat := d / 1000000

/-- Whole milliseconds, rounded up. -/
def ceilMillis (d : Duration) : Nat := (d + 999999) / 1000000

/-- Nanoseconds in a unit. -/
def unit? (u : Text) : Option Float :=
  if u == "ns".toList then some 1
  else if u == "us".toList || u == "µs".toList then some 1e3
  else if u == "ms".toList then some 1e6
  else if u == "s".toList then some 1e9
  else if u == "m".toList then some 60e9
  else if u == "h".toList then some 3600e9
  else none

/-! ## 2. Segments -/

/-- The characters of a number. -/
def isNumeric (c : Char) : Bool := c.isDigit || c == '.'

/-- The longest runs of characters that are all numeric or all not. -/
def runs : Text → List Text
  | [] => []
  | c :: s =>
    match runs s with
    | (d :: r) :: rs =>
      if isNumeric c == isNumeric d then (c :: d :: r) :: rs else [c] :: (d :: r) :: rs
    | rs => [c] :: rs

/-- A number and its unit. -/
structure Segment where
  digits : Nat
  places : Nat
  unit : Float

/-- The segment that two runs make. -/
def segment? (number unit : Text) : Option Segment := do
  let (digits, places) ← Decimal.readPoint? number
  return ⟨digits, places, ← unit? unit⟩

/-- Pairs the runs of a text up into segments. -/
def pairRuns? : List Text → Option (List Segment)
  | [] => some []
  | number :: unit :: rest => do
    let s ← segment? number unit
    return s :: (← pairRuns? rest)
  | [_] => none

/-- The segments of a text. -/
def segments? (s : Text) : Option (List Segment) := pairRuns? (runs s)

/-- The nanoseconds of one segment. -/
def Segment.nanos (s : Segment) : Float := Float.ofScientific s.digits true s.places * s.unit

/-! ## 3. Reading and showing -/

/-- The sum of the segments, from left to right. -/
def total (ss : List Segment) : Float := ss.foldl (fun t s => t + s.nanos) 0

/-- Whether a sum of nanoseconds fits into 64 bits. -/
def fits (t : Float) : Bool := t.isFinite && !(t > 18446744073709551616)

/-- The duration that a text writes, blanks around it ignored. -/
def read? (input : Text) : Option Duration :=
  let s := Text.trim input
  if s == ['0'] then some 0
  else if s.isEmpty then none
  else match segments? s with
    | some ss => if fits (total ss) then some (total ss).toUInt64.toNat else none
    | none => none

/-- A number of units, with what is left over as decimals of `places` places. -/
def withPart (whole part places : Nat) (unit : String) : String :=
  let ds := List.leftpad places '0' (Nat.toDigits 10 part)
  let ds := (ds.reverse.dropWhile (· == '0')).reverse
  if part == 0 then s!"{whole}{unit}" else s!"{whole}.{String.ofList ds}{unit}"

/-- The duration in the largest unit that it reaches, seconds at most. -/
def text (d : Duration) : String :=
  if 1000000000 ≤ d then withPart (d / 1000000000) (d % 1000000000) 9 "s"
  else if 1000000 ≤ d then withPart (d / 1000000) (d % 1000000) 6 "ms"
  else if 1000 ≤ d then withPart (d / 1000) (d % 1000) 3 "µs"
  else s!"{d}ns"

end Duration

end EdgeInclude
