import EdgeInclude.Text.Utf8

/-!
# Tags as they stand in a page

A tag opens with `<esi:` and closes with the first `/>` after that.

* `RawTag` — the bytes between both marks and the span of the whole tag.
* `RawTag.fits` — whether a body has the very same tag at the very same place.
-/

namespace EdgeInclude

/-- A tag of a page. It spans `start` to `stop`, and `interior` lies between its marks. -/
structure RawTag where
  interior : Bytes
  start : Nat
  stop : Nat
  deriving DecidableEq, Repr

namespace RawTag

/-- The mark that opens a tag. -/
def opening : Bytes := [0x3C, 0x65, 0x73, 0x69, 0x3A]

/-- The mark that closes a tag. -/
def closing : Bytes := [0x2F, 0x3E]

/-- Bytes that a tag takes besides its interior. -/
def frame : Nat := opening.length + closing.length

/-- A tag as it is written. -/
def written (interior : Bytes) : Bytes := opening ++ interior ++ closing

/-- Whether a body has this tag at this place: the span lies in it and has room for both marks, they
stand at its ends, and the interior stands between them. -/
def fits (t : RawTag) (body : Bytes) : Bool :=
  t.stop ≤ body.length && t.start + frame ≤ t.stop &&
    opening.isPrefixOf (body.drop t.start) && closing.isSuffixOf (body.take t.stop) &&
    ((body.drop (t.start + opening.length)).take
      (t.stop - closing.length - (t.start + opening.length)) == t.interior)

/-- The interior and the span in one line. -/
def describe (t : RawTag) : String :=
  s!"{String.ofList (Text.trim (Utf8.lossy t.interior))}@{t.start}..{t.stop}"

end RawTag

end EdgeInclude
