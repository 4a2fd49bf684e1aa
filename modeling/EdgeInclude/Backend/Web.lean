import EdgeInclude.Backend.Options

/-!
# Fragments from the web

A fragment is fetched from the address of the call, or from the key of the call joined onto a
configured base address. Answers that are too large are refused, never cut.

* `Delivery` — what the network brings for a request.
* `Web.target` — the address that a call fetches.
* `Web.collect` — a body that arrives in chunks, up to a limit.
* `Web.judge` — the answer that a delivery makes.
-/

namespace EdgeInclude

/-! ## 1. The network -/

/-- A request as it goes out. A timeout of zero stands for no limit. -/
structure Outgoing where
  method : Text
  url : Text
  headers : Headers
  timeout : Duration
  deriving DecidableEq, Repr

/-- Why the network brings nothing more. -/
structure Breakdown where
  timedOut : Bool
  reason : String
  deriving DecidableEq, Repr

/-- A body as it arrives: chunks, and the breakdown behind them if there is one. -/
structure Arrival where
  chunks : List Bytes
  breakdown : Option Breakdown
  deriving DecidableEq, Repr

/-- What the network brings for a request. -/
inductive Delivery where
  | failed (why : Breakdown)
  /-- `declared` is the length that the response tells for its body. -/
  | response (status : Nat) (headers : Headers) (declared : Option Nat) (body : Arrival)
  deriving DecidableEq, Repr

/-- The failure that a breakdown makes. -/
def Breakdown.failure (b : Breakdown) (url : Text) : Failure :=
  if b.timedOut then .timeout s!"{String.ofList url}: {b.reason}"
  else .http s!"Request to {String.ofList url} failed: {b.reason}"

/-! ## 2. Fetching -/

namespace Web

/-- The address that a call fetches. -/
def target (base : Option Url) (c : Call) : Except Failure Text :=
  match base with
  | none => .ok c.url
  | some u =>
    let key := c.key.getD []
    match u.join key with
    | .ok v => .ok v.text
    | .error e =>
      .error (.notValid s!"cannot join {Text.quoted key} onto {String.ofList u.text}: {e.message}")

/-- The request that a call makes. -/
def request (url : Text) (c : Call) : Outgoing := ⟨"GET".toList, url, c.headers, c.timeout⟩

/-- `body` and the chunks behind it, unless they exceed the limit. -/
def collect (limit : Nat) (body : Bytes) : List Bytes → Option Bytes
  | [] => some body
  | chunk :: rest =>
    if limit < body.length + chunk.length then none else collect limit (body ++ chunk) rest

/-- Whether a status means success. -/
def isSuccess (status : Nat) : Bool := 200 ≤ status && status < 300

/-- The answer that a delivery makes. -/
def judge (url : Text) (limit : Nat) : Delivery → Except Failure Response
  | .failed why => .error (why.failure url)
  | .response status headers declared body =>
    let u := String.ofList url
    if !isSuccess status then .error (.ofStatus status u)
    else match declared.filter (limit < ·) with
      | some n => .error (.http s!"{u} declares {n} bytes, limit is {limit}")
      | none =>
        match collect limit [] body.chunks, body.breakdown with
        | none, _ => .error (.http s!"{u} body exceeds {limit} bytes")
        | some _, some why => .error (why.failure url)
        | some content, none => .ok ⟨headers, content⟩

end Web

end EdgeInclude
