import EdgeInclude.Datum.Compact
import EdgeInclude.Failure
import EdgeInclude.Duration
import EdgeInclude.Http.Headers
import EdgeInclude.Text.Search

/-!
# Calls of backends

* `Call` — what a backend is asked for, `Response` — what it gives, `Answer` — when.
* `Call.lookupKey` — the key that a store looks up: the key of the call, else what follows the
  scheme of its address.
* `Call.datum` — the call as a structured value, as programs read it.
* `splitScheme` — the scheme of an address and what follows it.
-/

namespace EdgeInclude

/-- The mark between the scheme of an address and the rest. -/
def schemeSeparator : Text := "://".toList

/-- The scheme of an address and what follows it. -/
def splitScheme (url : Text) : Except Failure (Text × Text) :=
  match splitFirst? schemeSeparator url with
  | some (scheme, rest) =>
    if scheme.isEmpty then .error (.notValid s!"not a resource URL: {Text.quoted url}")
    else .ok (scheme, rest)
  | none => .error (.notValid s!"not a resource URL: {Text.quoted url}")

/-- What a backend is asked for. -/
structure Call where
  url : Text
  key : Option Text
  /-- The time that the backend has; zero stands for no limit. -/
  timeout : Duration
  /-- The largest answer that is taken. -/
  maxBody : Nat
  headers : Headers
  method : Text
  uri : Text
  remote : Text
  deriving DecidableEq, Repr

/-- What a backend answers. -/
structure Response where
  headers : Headers
  content : Bytes
  deriving DecidableEq, Repr

/-- An answer after some milliseconds, or never. -/
structure Answer where
  after : Option Nat
  result : Except Failure Response

/-- The same answer, so many milliseconds later. -/
def Answer.later (n : Nat) (a : Answer) : Answer := { a with after := a.after.map (n + ·) }

namespace Call

/-- The key that a store looks up. -/
def lookupKey (c : Call) : Text :=
  match c.key with
  | some k => k
  | none =>
    match splitFirst? schemeSeparator c.url with
    | some (_, rest) => rest
    | none => c.url

/-- The header fields whose values are plain text: one value for each name, the last one, by name
in order. -/
def plainHeaders (h : Headers) : List (Text × Text) :=
  let named := h.groups.filterMap fun (n, vs) =>
    (vs.filterMap Headers.plain?).getLast?.map fun v => (n, v)
  named.foldr (fun f fs => fs.takeWhile (·.1 < f.1) ++ f :: fs.dropWhile (·.1 < f.1)) []

/-- The call as a structured value, names in order. -/
def datum (c : Call) : Datum :=
  .map [
    ("headers".toList, .map ((plainHeaders c.headers).map fun (n, v) => (n, .text v))),
    ("key".toList, (c.key.map Datum.text).getD .null),
    ("max_body_size".toList, .int c.maxBody),
    ("method".toList, .text c.method),
    ("remote".toList, .text c.remote),
    ("timeout_ms".toList, .int (c.timeout.millis % (1 <<< 64) : Nat)),
    ("uri".toList, .text c.uri),
    ("url".toList, .text c.url)]

end Call

end EdgeInclude
