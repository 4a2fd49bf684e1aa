import EdgeInclude.Failure

/-!
# Replacements

A replacement puts data in the place of a span of a page. The replacements of one page are
kept in the order of their spans, and their spans are disjoint.

* `Replacements.ofList` — orders replacements; fails if two spans overlap.
* `Replacements.delta` — by how much the replacements change the length of a page.
* `Replacements.adjust` — the length of a page after the replacements.

Lengths are computed in words of 64 bits.
-/

namespace EdgeInclude

/-! ## 1. One replacement -/

/-- Data in the place of a span that is not empty. -/
structure Replacement where
  data : Bytes
  start : Nat
  stop : Nat
  start_lt_stop : start < stop
  deriving DecidableEq, Repr

namespace Replacement

/-- The replacement of a span, unless the span is empty. -/
def make (start stop : Nat) (data : Bytes) : Except Failure Replacement :=
  if h : start < stop then .ok ⟨data, start, stop, h⟩
  else .error (.notValid s!"tag start ({start}) must be < end ({stop})")

/-- The length of the span. -/
def width (r : Replacement) : Nat := r.stop - r.start

/-- By how much the replacement changes the length of a page. -/
def delta (r : Replacement) : Int64 := Int64.ofNat r.data.length - Int64.ofNat r.width

/-- Whether a replacement ends before another one starts. -/
def Before (a b : Replacement) : Prop := a.stop ≤ b.start

instance (a b : Replacement) : Decidable (Before a b) := inferInstanceAs (Decidable (_ ≤ _))

end Replacement

/-! ## 2. Ordering -/

/-- A replacement put in front of the first one that starts no earlier. -/
def Replacement.place (r : Replacement) : List Replacement → List Replacement
  | [] => [r]
  | a :: rest => if r.start ≤ a.start then r :: a :: rest else a :: place r rest

/-- Replacements in the order of their starts; those that start together keep their order. -/
def Replacement.sorted : List Replacement → List Replacement
  | [] => []
  | r :: rest => r.place (sorted rest)

/-- The first two neighbours that are not in order. -/
def Replacement.clash? : List Replacement → Option (Replacement × Replacement)
  | a :: b :: rest => if b.start < a.stop then some (a, b) else clash? (b :: rest)
  | _ => none

theorem Replacement.pairwise_of_clash? {rs : List Replacement} (h : clash? rs = none) :
    rs.Pairwise Before := by
  induction rs with
  | nil => exact .nil
  | cons a rs ih =>
    cases rs with
    | nil => simp
    | cons b rest =>
      unfold clash? at h
      split at h
      · simp at h
      · rename_i hab
        have hp := ih h
        refine .cons (fun c hc => ?_) hp
        have hb : a.stop ≤ b.start := Nat.le_of_not_lt hab
        cases hc with
        | head => exact hb
        | tail _ hc =>
          have h1 : b.stop ≤ c.start := (List.pairwise_cons.1 hp).1 c hc
          have h2 := b.start_lt_stop
          show a.stop ≤ c.start
          omega

/-- The replacements of a page, in order and disjoint. -/
structure Replacements where
  items : List Replacement
  ordered : items.Pairwise Replacement.Before
  deriving DecidableEq, Repr

namespace Replacements

/-- No replacement. -/
def empty : Replacements := ⟨[], .nil⟩

/-- The wording of an overlap. -/
def overlap (a b : Replacement) : String :=
  s!"overlapping tags: {a.start}..{a.stop} and {b.start}..{b.stop}"

/-- Replacements in order, unless two spans overlap. -/
def ofList (rs : List Replacement) : Except Failure Replacements :=
  match h : Replacement.clash? (Replacement.sorted rs) with
  | none => .ok ⟨Replacement.sorted rs, Replacement.pairwise_of_clash? h⟩
  | some (a, b) => .error (.notValid (overlap a b))

def length (rs : Replacements) : Nat := rs.items.length

def isEmpty (rs : Replacements) : Bool := rs.items.isEmpty

/-! ## 3. Lengths -/

/-- The number of bytes that the replacements put in. -/
def dataLength (rs : Replacements) : Nat := rs.items.foldr (·.data.length + ·) 0

/-- By how much the replacements change the length of a page. -/
def delta (rs : Replacements) : Int64 := rs.items.foldl (fun d r => d + r.delta) 0

/-- The length of a page of length `declared` after the replacements. -/
def adjust (rs : Replacements) (declared : UInt64) : Except Failure UInt64 :=
  match rs.items.getLast? with
  | some last =>
    if declared.toNat < last.stop then
      .error (.notValid s!"tag end {last.stop} exceeds declared content length {declared.toNat}")
    else settle
  | none => settle
where
  /-- The length as a word, unless it is negative. -/
  settle : Except Failure UInt64 :=
    let n := declared.toInt64 + rs.delta
    if n < 0 then
      .error (.internal s!"negative content length after adjustment: {n.toInt}")
    else .ok n.toUInt64

end Replacements

end EdgeInclude
