import EdgeInclude.Failure
import EdgeInclude.Tag.Raw
import EdgeInclude.Text.Search

/-!
# The tags of a page, by leftmost search

The tags of a page are found by searching: the leftmost opening mark, then the first
closing mark behind it, and so on from there. A candidate whose interior is too long
makes the page malformed, closed or not.

* `RawTag.search` — the tags of a page from a position on.
-/

namespace EdgeInclude.RawTag

/-- The interior so far of a tag that is never closed; a single slash at its end may still
be part of a closing mark. -/
def unclosed (rest : Bytes) : Bytes :=
  if rest.getLast? == some 0x2F then rest.dropLast else rest

/-- The tags of `page`, the rest of a page from `pos` on. -/
def search (maxSize pos : Nat) (page : Bytes) : Except Failure (List RawTag) :=
  match _opened : splitFirst? opening page with
  | none => .ok []
  | some (before, rest) =>
    let start := pos + before.length
    match _closed : splitFirst? closing rest with
    | none =>
      if maxSize < (unclosed rest).length then .error (.malformedTag start maxSize) else .ok []
    | some (interior, rest') =>
      if maxSize < interior.length then .error (.malformedTag start maxSize)
      else
        let stop := start + interior.length + frame
        match search maxSize stop rest' with
        | .ok tags => .ok (⟨interior, start, stop⟩ :: tags)
        | .error e => .error e
termination_by page.length
decreasing_by
  rw [splitFirst?_eq_append _opened, splitFirst?_eq_append _closed]
  simp [opening, closing]
  omega

end EdgeInclude.RawTag
