import EdgeInclude.Calendar
import EdgeInclude.Duration
import EdgeInclude.Http.Headers
import EdgeInclude.Http.Percent
import EdgeInclude.Http.Target

/-!
# Requests

The inbound request is what templates and conditions in tags read from.

* `Request.ofParts` — a request from its method, target and header fields.
* `Request.header?`, `Request.cookie?`, `Request.field?` — named values of a request.
* `Request.placeholder?` — the value of a placeholder.
* `Request.remaining?` — the time left until the deadline.
-/

namespace EdgeInclude

/-- An inbound request. -/
structure Request where
  method : Text
  scheme : Text
  host : Text
  target : Target
  headers : Headers
  /-- The address of the client. -/
  remote : Text
  /-- The fields of a form in the body. -/
  bodyFields : List (Text × Text)
  /-- The time of the monotonic clock at which an answer is no longer of use. -/
  deadline : Option Nat
  /-- When the request is served. -/
  moment : Moment
  deriving DecidableEq, Repr

namespace Request

/-! ## 1. Building -/

def get : Text := "GET".toList

def head : Text := "HEAD".toList

/-- A request from its parts. The authority of the target goes before a host field. -/
def ofParts (method : Text) (target : Target) (headers : Headers) : Request where
  method := method
  scheme := target.scheme.getD "http".toList
  host := match target.authority with
    | some a => a
    | none => (headers.text? "host".toList).getD []
  target := target
  headers := headers
  remote := []
  bodyFields := []
  deadline := none
  moment := ⟨0, 0⟩

/-- The request with the fields of a form in its body. -/
def withForm (r : Request) (body : Bytes) : Request := { r with bodyFields := Form.fields body }

/-! ## 2. Named values -/

/-- The value of a name in a list of pairs: the first one counts. -/
def firstOf (name : Text) (pairs : List (Text × Text)) : Option Text :=
  (pairs.find? fun p => p.1 == name).map (·.2)

/-- The first value of a header field. -/
def header? (r : Request) (name : Text) : Option Text := r.headers.text? name

/-- A cookie in its place among the others. -/
def cookiePair? (s : Text) : Option (Text × Text) :=
  (Text.splitAtFirst? '=' (Text.trim s)).map fun (n, v) => (Text.trim n, Text.trim v)

/-- All cookies, in order. -/
def cookies (r : Request) : List (Text × Text) :=
  ((r.headers.getAll "cookie".toList).filterMap Headers.plain?).flatMap fun v =>
    (Text.pieces ';' v).filterMap cookiePair?

/-- The value of a cookie: the last one counts. -/
def cookie? (r : Request) (name : Text) : Option Text := firstOf name r.cookies.reverse

/-- The fields of the query. -/
def queryFields (r : Request) : List (Text × Text) :=
  match r.target.query? with
  | some q => Form.fields (Text.utf8 q)
  | none => []

/-- The value of a form field: the body goes before the query, and the first one counts. -/
def field? (r : Request) (name : Text) : Option Text :=
  firstOf name (r.bodyFields ++ r.queryFields)

/-! ## 3. Placeholders -/

/-- The host without the port. -/
def hostOnly (r : Request) : Text :=
  match Text.splitLast? ':' r.host with
  | some (h, _) => h
  | none => r.host

/-- Path and query, or the path of a target that has none. -/
def uri (r : Request) : Text := r.target.pathAndQuery?.getD r.target.path

/-- The names of placeholders that stand for a fact about the request. -/
inductive Fact where
  | method | scheme | host | hostOnly | path | query | uri | remote | stamp | seconds
  deriving DecidableEq, Repr

/-- The fact that a name stands for. -/
def Fact.ofName? (name : Text) : Option Fact :=
  [("method", Fact.method), ("scheme", .scheme), ("host", .host), ("hostonly", .hostOnly),
    ("path", .path), ("query", .query), ("uri", .uri), ("remote", .remote), ("when", .stamp),
    ("when_unix", .seconds)].findSome? fun (n, f) => if n.toList == name then some f else none

/-- The value of a fact. -/
def fact (r : Request) : Fact → Text
  | .method => r.method
  | .scheme => r.scheme
  | .host => r.host
  | .hostOnly => r.hostOnly
  | .path => r.target.path
  | .query => r.target.query
  | .uri => r.uri
  | .remote => r.remote
  | .stamp => r.moment.stamp
  | .seconds => Nat.toDigits 10 r.moment.seconds

/-- The value of a placeholder: a header field behind an `H`, a cookie behind a `C`, a form
field behind an `F`, else a fact. -/
def placeholder? (r : Request) : Text → Option Text
  | 'H' :: c :: name => r.header? (c :: name)
  | 'C' :: c :: name => r.cookie? (c :: name)
  | 'F' :: c :: name => r.field? (c :: name)
  | token => (Fact.ofName? token).map r.fact

/-! ## 4. The deadline -/

/-- The time left until the deadline. -/
def remaining? (r : Request) (now : Nat) : Option Duration := r.deadline.map (· - now)

end Request

end EdgeInclude
