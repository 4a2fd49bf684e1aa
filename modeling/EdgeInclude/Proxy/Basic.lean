import EdgeInclude.Engine.Basic
import EdgeInclude.Proxy.Origin

/-!
# Between clients and the origin

A request for a page that may have tags is answered here: the page is fetched from the origin,
processed, and sent chunk by chunk. Purge requests are answered here too; every other request is
left to plain forwarding.

* `Proxy.filter` — answers a request, or leaves it.
* `Proxy.serve` — fetches, processes and sends a page.
* `Proxy.gather` — a body that is collected up to a limit.
* `Proxy.stream` — a body that gets its replacements chunk by chunk.
* `Proxy.peer`, `Proxy.forwarded` — where a request that is left goes, and with which fields.
-/

namespace EdgeInclude

/-! ## 1. Requests and replies -/

/-- A request of a client. -/
structure ClientRequest where
  method : Text
  target : Target
  headers : Headers
  /-- The address of the client; empty, if it is not known. -/
  remote : Text
  /-- When the request comes in. -/
  moment : Moment
  deriving DecidableEq, Repr

/-- Why a request fails. -/
inductive Proxy.Fault where
  | status (n : Nat)
  /-- The origin breaks off. -/
  | read
  deriving DecidableEq, Repr

/-- What is known of a request for the log. -/
structure Proxy.Context where
  path : Text
  /-- Whether the page was processed. -/
  processed : Bool
  status : Option Nat
  tags : Nat
  degraded : Bool
  /-- The bytes sent to the client. -/
  bytes : Nat
  deriving DecidableEq, Repr

/-- A request being answered: what is known of it, and what has been sent. -/
structure Proxy.Exchange where
  context : Proxy.Context
  sent : Option Reply
  deriving DecidableEq, Repr

namespace Proxy

namespace Exchange

/-- A request for a path, before anything is sent. -/
def new (path : Text) : Exchange := ⟨⟨path, false, none, 0, false, 0⟩, none⟩

/-- Sends a status and header fields. -/
def head (x : Exchange) (status : Nat) (h : Headers) : Exchange :=
  ⟨{ x.context with status := some status }, some ⟨status, h, []⟩⟩

/-- Sends bytes of a body. -/
def body (x : Exchange) (bytes : Bytes) : Exchange :=
  ⟨{ x.context with bytes := x.context.bytes + bytes.length },
    x.sent.map fun r => { r with body := r.body ++ bytes }⟩

/-- Sends a whole reply. -/
def reply (x : Exchange) (r : Reply) : Exchange := (x.head r.status r.headers).body r.body

end Exchange

/-- What of a reply reaches the client: no body for a request that asks for none, and no more of it
than is declared. -/
def delivered (method : Text) (r : Reply) : Reply :=
  let body := match declaredLength? r.headers with
    | some n => r.body.take n.toNat
    | none => r.body
  { r with body := if method == Request.head then [] else body }

/-- The reply when the origin cannot be reached. -/
def badGateway : Reply :=
  ((Reply.ofText 502 "text/plain" "Bad Gateway").withField "content-length" "11").withField
    "cache-control" "no-store"

end Proxy

/-- An engine between clients and the origin; purge requests may be answered. -/
structure Proxy where
  engine : Engine
  purge : Option Purge
  deriving DecidableEq, Repr

namespace Proxy

variable {σ : Type}

/-- The proxy of a configuration, over an engine of it. -/
def ofEngine (e : Engine) : Proxy :=
  ⟨e, (e.config.purge.filter (·.enabled)).map fun p => e.purge p.token⟩

/-! ## 2. Bodies -/

/-- What has been read of a body, what follows, and whether it exceeds the limit. -/
structure Gathered where
  body : Bytes
  rest : List Bytes
  overflow : Bool
  deriving DecidableEq, Repr

/-- Collects chunks until there are more bytes than a limit. -/
def gather (limit : Nat) (body : Bytes) : List Bytes → Gathered
  | [] => ⟨body, [], false⟩
  | chunk :: rest =>
    if limit < (body ++ chunk).length then ⟨body ++ chunk, rest, true⟩
    else gather limit (body ++ chunk) rest

/-- Sends chunks through an injector. -/
def stream (i : Injector) (x : Exchange) : List Bytes → Injector × Exchange
  | [] => (i, x)
  | chunk :: rest =>
    let (i, out) := i.write chunk
    stream i (x.body out) rest

/-- Sends a page: first what has been read of it, then the rest, and its end. -/
def streamRest (i : Injector) (first : Bytes) (rest : Arrival) (x : Exchange) :
    Exchange × Except Fault Unit :=
  let (i, x) := stream i x (if first.isEmpty then rest.chunks else first :: rest.chunks)
  if rest.breakdown.isSome then (x, .error .read)
  else match i.finish with
    | .ok () => (x, .ok ())
    | .error e => (x, .error (.status e.status))

/-! ## 3. Pages -/

/-- When the request for a page is given up: never, for its handle is held until it is answered. -/
def departure : Departure := CancelHandle.new.signal.departure .new none

@[simp] theorem departure_eq_never : departure = .never := rfl

/-- Sends a page by its plan. -/
def send (p : Plan) (status : Nat) (first : Bytes) (rest : Arrival) (x : Exchange)
    (s : Engine.State σ) : Engine.State σ × Exchange × Except Fault Unit :=
  let x := { x with context := { x.context with tags := p.tagCount, degraded := p.degraded } }
  match p.headers, p.injector with
  | .ok h, .ok i =>
    let s := Engine.countInjected i.tags.dataLength s
    let (x, r) := streamRest i first rest (x.head status h)
    (s, x, r)
  | .error e, _ | _, .error e => (s, x, .error (.status e.status))

/-- Sends a page whose plan is known before its body. -/
def sendPlanned (p : Plan) (status : Nat) (body : Arrival) (x : Exchange) (s : Engine.State σ) :
    Engine.State σ × Exchange × Except Fault Unit :=
  match body.chunks with
  | first :: rest => send (p.observe first) status first { body with chunks := rest } x s
  | [] =>
    if body.breakdown.isSome then (s, x, .error .read)
    else send (p.observe []) status [] body x s

/-- Sends a page whose plan needs the body; a body that exceeds the limit goes out unchanged. -/
def sendGathered (e : Engine) (o : Surroundings σ) (p : Plan) (r : Request) (status : Nat)
    (body : Arrival) (x : Exchange) (s : Engine.State σ) :
    Engine.State σ × Exchange × Except Fault Unit :=
  let g := gather e.config.maxBody [] body.chunks
  if !g.overflow && body.breakdown.isSome then (s, x, .error .read)
  else
    let s := { s with bytes := s.bytes.origin g.body.length }
    let rest : Arrival := { body with chunks := g.rest }
    if g.overflow then send p.bypass status g.body rest x s
    else match e.completePlan o p r g.body departure s with
      | (s, .error err) => (s, x, .error (.status err.status))
      | (s, .ok p) => send p status g.body rest x s

/-- The request for a page, with the client that it comes from and the time that it has. -/
def pageRequest (e : Engine) (c : ClientRequest) (now : Nat) : Request :=
  { Request.ofParts c.method c.target c.headers with
    remote := c.remote
    deadline := some (now + e.config.timeout)
    moment := c.moment }

/-- The path and the query of the page that a client asks for. -/
def pathAndQuery (c : ClientRequest) : Text := c.target.pathAndQuery?.getD ['/']

/-- What is sent to the origin for a page. -/
def originRequest (e : Engine) (c : ClientRequest) : Outgoing where
  method := c.method
  url := Origin.url e.config.origin (pathAndQuery c)
  headers := Origin.requestHeaders c.headers
  timeout := e.config.timeout

/-- Answers a request with what the origin delivers. -/
def answer (e : Engine) (o : Surroundings σ) (r : Request) (x : Exchange)
    (s : Engine.State σ) : Delivery → Engine.State σ × Exchange × Except Fault Unit
  | .failed _ => (s, x.reply badGateway, .ok ())
  | .response status headers _ body =>
    let h := Hop.strip headers
    if !Eligibility.ofResponse status h then
      let (x, done) := streamRest .passing [] body (x.head status h)
      (s, x, done)
    else
      let x := { x with context := { x.context with processed := true } }
      match e.beginStream o r h departure s with
      | (s, .error err) => (s, x, .error (.status err.status))
      | (s, .ok p) =>
        if p.isReady then sendPlanned p status body x s else sendGathered e o p r status body x s

/-- How far the clock goes while the origin answers. One that does not answer takes all the time
that it has. -/
def originTime (e : Engine) (o : Surroundings σ) (after : Option Nat) : Nat :=
  1 + o.pace * after.getD e.config.timeout.ceilMillis

/-- Fetches, processes and sends a page. -/
def serve (e : Engine) (o : Surroundings σ) (c : ClientRequest) (x : Exchange)
    (s : Engine.State σ) : Engine.State σ × Exchange × Except Fault Unit :=
  let r := pageRequest e c s.world.now
  let (outside, after, delivery) := o.network (originRequest e c) s.world.reach.outside
  let s := { s with world := { s.world with
    reach := { s.world.reach with outside := outside }
    now := s.world.now + originTime e o after } }
  answer e o r x s delivery

/-! ## 4. Requests -/

/-- Answers a request, or leaves it: the result tells whether it has been answered. -/
def filter (p : Proxy) (o : Surroundings σ) (c : ClientRequest) (s : Engine.State σ) :
    Engine.State σ × Exchange × Except Fault Bool :=
  let x := Exchange.new c.target.path
  if Purge.isPurge c.method then
    match p.purge with
    | none => (s, x, .ok false)
    | some g =>
      let (cache, v) := g.handle ⟨c.method, c.target, c.headers⟩ s.pages.cache
      ({ s with pages := { s.pages with cache := cache } }, x.reply v.reply, .ok true)
  else if !Eligibility.ofRequest p.engine.config.patterns c.method c.target.path c.headers then
    (s, x, .ok false)
  else
    let (s, x, r) := serve p.engine o c x s
    (s, x, r.map fun _ => true)

/-- Counts a request that is done. -/
def log (x : Exchange) (s : Engine.State σ) : Engine.State σ :=
  { s with
    requests := s.requests.request x.context.processed
    bytes := s.bytes.client x.context.bytes }

/-- Where a request that is left goes. -/
def peer (p : Proxy) : Text × Nat := Origin.hostAndPort p.engine.config.origin

/-- The fields that a request that is left goes with. -/
def forwarded (p : Proxy) (h : Headers) : Headers :=
  (h.insert "host".toList (Text.utf8 p.peer.1)).insert "user-agent".toList Origin.agent

end Proxy

end EdgeInclude
