import EdgeInclude.Hash.Xxh3
import EdgeInclude.Http.Headers

/-!
# Page fingerprints

Two requests ask for the same page when they agree on method, path and query, and on the header
fields that a site's pages vary by.

* `Fingerprint.key` — the byte string that tells pages apart.
* `Fingerprint.ofRequest` — its hash.
* `Fingerprint.text` — the hash in sixteen hexadecimal digits.
-/

namespace EdgeInclude

/-- The hash that a page is known by. -/
abbrev Fingerprint := UInt64

namespace Fingerprint

/-- A field that pages vary by: its name, and its values, each with a comma behind it. -/
def variation (headers : Headers) (name : Text) : Bytes :=
  0 :: Text.utf8 (Text.lower name) ++ 0x3D ::
    (headers.getAll name).flatMap fun v => v ++ [0x2C]

/-- The byte string that tells pages apart. -/
def key (method pathAndQuery : Text) (headers : Headers) (varyBy : List Text) : Bytes :=
  Text.utf8 method ++ 0 :: Text.utf8 pathAndQuery ++ varyBy.flatMap (variation headers)

/-- The fingerprint of the page that a request asks for. -/
def ofRequest (method pathAndQuery : Text) (headers : Headers) (varyBy : List Text) : Fingerprint :=
  Xxh3.hash (key method pathAndQuery headers varyBy)

/-- A fingerprint in sixteen hexadecimal digits. -/
def text (fp : Fingerprint) : Text := List.leftpad 16 '0' (Nat.toDigits 16 fp.toNat)

end Fingerprint

end EdgeInclude
