import EdgeInclude.Replacement

/-!
# Splicing

* `splice` — a page with every span replaced, and every other byte unchanged.
* `Replacements.room` — the memory that is taken for it in advance.
* `inject` — the same for a page that is known to be long enough, else the first replacement
  that does not fit.
-/

namespace EdgeInclude

/-! ## 1. Spans -/

/-- `page`, the rest of a page from `pos` on, with the spans of `rs` replaced. -/
def spliceFrom (pos : Nat) (page : Bytes) : List Replacement → Bytes
  | [] => page
  | r :: rest =>
    page.take (r.start - pos) ++ r.data ++ spliceFrom r.stop (page.drop (r.stop - pos)) rest

/-- A page with every span replaced. -/
def splice (page : Bytes) (rs : Replacements) : Bytes := spliceFrom 0 page rs.items

/-- The first replacement that ends behind the end of a page of `length` bytes, counted
from `index`. -/
def overrun? (length index : Nat) : List Replacement → Option (Nat × Replacement)
  | [] => none
  | r :: rest => if length < r.stop then some (index, r) else overrun? length (index + 1) rest

/-! ## 2. Room -/

/-- A number that a word with a sign can hold; a computation breaks off with any other. -/
def Word.fit (fault : String) (n : Int) : Except Failure Int :=
  if (Int64.ofInt n).toInt = n then .ok n else .error (.crash fault)

/-- By how much a replacement changes the length of a page, with both lengths as words. -/
def Replacement.change (r : Replacement) : Except Failure Int :=
  Word.fit "attempt to subtract with overflow"
    ((Int64.ofNat r.data.length).toInt - (Int64.ofNat r.width).toInt)

namespace Replacements

/-- The changes by the replacements that are left, added to the one so far. -/
def changes (sum : Int) : List Replacement → Except Failure Int
  | [] => .ok sum
  | r :: rest => do
    let d ← r.change
    let sum ← Word.fit "attempt to add with overflow" (sum + d)
    changes sum rest

/-- The memory that can be had: no more than there are addresses for. -/
def memory : Nat := 1 <<< 47

/-- The memory that is taken for a page of `length` bytes with its replacements. It is computed from
the widths of the spans, also of those that reach beyond the page. -/
def room (length : Nat) (rs : Replacements) : Except Failure Nat := do
  let d ← changes 0 rs.items
  let n ← Word.fit "attempt to add with overflow" ((Int64.ofNat length).toInt + d)
  if memory < n.toNat then .error (.crash s!"memory allocation of {n.toNat} bytes failed")
  else .ok n.toNat

end Replacements

/-! ## 3. The whole page -/

/-- A page with every span replaced, if all spans lie in it. Then the memory that is taken for it is
what it needs, and there is always that much; a span that reaches beyond the page may ask for more
than there is. -/
def inject (page : Bytes) (rs : Replacements) : Except Failure Bytes :=
  match overrun? page.length 0 rs.items with
  | some (index, r) => do
    let _ ← rs.room page.length
    .error (.injection index r.start r.stop s!"tag ends past document of {page.length} bytes")
  | none => .ok (splice page rs)

end EdgeInclude
