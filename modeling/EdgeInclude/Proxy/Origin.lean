import EdgeInclude.Http.Headers
import EdgeInclude.Number.Decimal

/-!
# Between client and origin

* `Hop.strip` — header fields without those that concern a single connection.
* `Origin.requestHeaders` — the fields that are sent to the origin for a page.
* `Origin.hostAndPort` — where the origin is.
* `Origin.url` — the address of a page at the origin.
-/

namespace EdgeInclude

namespace Hop

/-- Fields that concern a single connection. -/
def fields : List Text :=
  ["connection", "keep-alive", "proxy-connection", "te", "trailer", "transfer-encoding",
    "upgrade"].map String.toList

/-- Header fields without those that concern a single connection. -/
def strip (h : Headers) : Headers := h.filterNames fun n => !fields.contains n

end Hop

namespace Origin

/-- The name that the engine gives itself. -/
def agent : Bytes := Text.utf8 "Pingora-ESI/1.0".toList

/-- The fields that are sent to the origin for a page: its body has to come as it is. -/
def requestHeaders (h : Headers) : Headers :=
  (((Hop.strip h).remove "host".toList).insert "accept-encoding".toList
    (Text.utf8 "identity".toList)).insert "user-agent".toList agent

/-- Host and port that an address of an origin names, 80 if it names none. -/
def hostAndPort (address : Text) : Text × Nat :=
  match Text.splitLast? ':' address with
  | some (host, port) => (host, (Decimal.readNat? 65535 port).getD 80)
  | none => (address, 80)

/-- The address of a page at the origin. -/
def url (address pathAndQuery : Text) : Text := "http://".toList ++ address ++ pathAndQuery

end Origin

end EdgeInclude
