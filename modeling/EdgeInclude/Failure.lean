import EdgeInclude.Text.Quoted
import EdgeInclude.Text.Utf8

/-!
# Failures

Everything that can go wrong while a page is scanned, resolved or put together.

* `Failure` — one constructor for each kind of failure.
* `Failure.tripsBreaker` — failures that say something about the health of a backend.
* `Failure.status` — the status of the response that a failed request is answered with.
* `ParseFault` — why the text of a tag cannot be read, with the wording of each cause.

The failure of a single tag never fails its page: the tag is replaced by its
fallback text.
-/

namespace EdgeInclude

/-! ## 1. Kinds of failure -/

/-- A failure. `detail` is the part of the message that tells one cause from another. -/
inductive Failure where
  | config (detail : String)
  | parse (detail : String)
  /-- A tag that opens at `offset` has more than `maxSize` bytes inside. -/
  | malformedTag (offset maxSize : Nat)
  | notFound (detail : String)
  | timeout (detail : String)
  | cancelled (detail : String)
  | backendFatal (detail : String)
  | notSupported (detail : String)
  | notValid (detail : String)
  | http (detail : String)
  | io (detail : String)
  /-- The replacement `index`, which spans `start` to `stop`, cannot be made. -/
  | injection (index start stop : Nat) (detail : String)
  /-- No source of a tag has answered after `attempts` fetches. -/
  | exhausted (tag : String) (attempts : Nat) (fallback : Option Text)
  | cache (detail : String)
  | internal (detail : String)
  /-- A computation breaks off: a number does not fit, or memory does not suffice. -/
  | crash (detail : String)
  deriving DecidableEq, Repr

namespace Failure

/-- The message of a failure. -/
def message : Failure → String
  | config d => s!"Configuration error: {d}"
  | parse d => s!"Parse error: {d}"
  | malformedTag offset maxSize =>
    s!"Malformed tag at offset {offset}: tag exceeds {maxSize} bytes"
  | notFound d => s!"Resource not found: {d}"
  | timeout d => s!"Timeout: {d}"
  | cancelled d => s!"Request cancelled: {d}"
  | backendFatal d => s!"Backend fatal error: {d}"
  | notSupported d => s!"Not supported: {d}"
  | notValid d => s!"Not valid: {d}"
  | http d => s!"HTTP error: {d}"
  | io d => s!"IO error: {d}"
  | injection index start stop d => s!"Injection failed for tag {index} ({start}..{stop}): {d}"
  | exhausted tag attempts _ => s!"All {attempts} resources failed for tag {tag}"
  | cache d => s!"Cache error: {d}"
  | internal d => s!"Internal error: {d}"
  | crash d => d

/-- Whether a failure counts against the backend that it came from. A request that
is given up and a faulty configuration say nothing about a backend's health. -/
def tripsBreaker : Failure → Bool
  | notFound _ | timeout _ | http _ | io _ | backendFatal _ => true
  | _ => false

/-- Whether a failure means that the client has gone away. -/
def isCancelled : Failure → Bool
  | cancelled _ => true
  | _ => false

/-- The text that stands in for a failed tag, if the tag declares one. -/
def fallback? : Failure → Option Text
  | exhausted _ _ fallback => fallback
  | _ => none

/-- The status of the response to a request that fails. -/
def status : Failure → Nat
  | http _ | backendFatal _ | notFound _ | exhausted .. => 502
  | timeout _ => 504
  | cancelled _ => 499
  | _ => 500

/-- The failure that a backend's status reports. -/
def ofStatus (status : Nat) (detail : String) : Failure :=
  if status == 404 then notFound detail else http s!"HTTP {status}: {detail}"

end Failure

/-! ## 2. Faults in the text of a tag -/

/-- Why the text of a tag cannot be read. -/
inductive ParseFault where
  | duration (input : Text)
  | unterminatedQuote (name : Text)
  | unterminatedPlaceholder (source : Text)
  | emptyPlaceholder (source : Text)
  | emptyCondition
  | unsupportedKind (kind : Text)
  | noSource
  | notUtf8 (fault : Utf8.Fault)
  deriving DecidableEq, Repr

namespace ParseFault

/-- The wording of a fault. -/
def message : ParseFault → String
  | duration input => s!"invalid duration: {Text.quoted input}"
  | unterminatedQuote name => s!"unterminated quote for attribute {Text.quoted name}"
  | unterminatedPlaceholder source => s!"unterminated placeholder in {Text.quoted source}"
  | emptyPlaceholder source => s!"empty placeholder in {Text.quoted source}"
  | emptyCondition => "empty condition"
  | unsupportedKind kind => s!"unsupported ESI tag kind: {Text.quoted kind}"
  | noSource => "ESI include requires at least one src"
  | notUtf8 fault => s!"tag is not valid UTF-8: {fault.message}"

/-- A fault as a failure. -/
def failure (f : ParseFault) : Failure := .parse f.message

end ParseFault

end EdgeInclude
