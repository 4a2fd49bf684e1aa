import EdgeInclude.Http.Headers
import EdgeInclude.Number.Decimal
import EdgeInclude.Text.Search

/-!
# Which pages are processed

A star in a pattern of paths stands for any text. A pattern without a star stands for every path
that begins with it.

* `Glob.fits` — whether a text fits a pattern; `Glob.fitsPieces` — the same for the pieces of a
  pattern between its stars.
* `Eligibility.ofRequest` — whether a request may be answered with a processed page.
* `Eligibility.ofResponse` — whether a response of the origin may be processed.
* `declaredLength?` — the length that a header block declares for its body.
-/

namespace EdgeInclude

/-! ## 1. Patterns of paths -/

namespace Glob

/-- Whether a text holds the pieces one after the other, with anything between them, and the last
one at its end. Each piece is taken at its leftmost place. -/
def fitsPieces : List Text → Text → Bool
  | [], s => s.isEmpty
  | [last], s => last.isSuffixOf s
  | p :: q :: rest, s =>
    match splitFirst? p s with
    | some (_, s') => fitsPieces (q :: rest) s'
    | none => false

/-- Whether a text fits a pattern. -/
def fits (pattern s : Text) : Bool :=
  match Text.pieces '*' pattern with
  | first :: p :: rest =>
    match List.isPrefixOf? first s with
    | some s' => fitsPieces (p :: rest) s'
    | none => false
  | _ => pattern.isPrefixOf s

end Glob

/-! ## 2. Requests and responses -/

/-- The length that a header block declares for its body. -/
def declaredLength? (h : Headers) : Option UInt64 :=
  (h.text? "content-length".toList).bind fun v =>
    (Decimal.readNat? Decimal.maxWord (Text.trim v)).map UInt64.ofNat

namespace Eligibility

/-- Whether a request may be answered with a processed page: a whole page is asked for, under a path
that fits one of the patterns, if there are any. -/
def ofRequest (patterns : List Text) (method path : Text) (h : Headers) : Bool :=
  (method == "GET".toList || method == "HEAD".toList) && !h.contains "range".toList &&
    (patterns.isEmpty || patterns.any fun p => Glob.fits p path)

/-- How the names of textual types begin. -/
def textualTypes : List Text :=
  ["text/", "application/xhtml+xml", "application/xml", "application/json",
    "application/javascript"].map String.toList

/-- Whether a body is sent as it is. -/
def isPlainlyEncoded (h : Headers) : Bool :=
  match h.get? "content-encoding".toList with
  | none => true
  | some v =>
    let e := Text.trim ((Headers.plain? v).getD [])
    e.isEmpty || Text.sameLetters e "identity".toList

/-- Whether a body is text, as far as its type tells. -/
def isTextual (h : Headers) : Bool :=
  match h.text? "content-type".toList with
  | none => true
  | some t => textualTypes.any fun p => p.isPrefixOf (Text.lower (Text.trim t))

/-- Whether a response of the origin may be processed. -/
def ofResponse (status : Nat) (h : Headers) : Bool :=
  status == 200 && isPlainlyEncoded h && isTextual h

end Eligibility

end EdgeInclude
