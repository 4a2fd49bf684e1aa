import EdgeInclude.Cancel
import EdgeInclude.Config.Basic
import EdgeInclude.Resolver.World
import EdgeInclude.Tag.Include

/-!
# Resolving a tag

The sources of a tag are tried in order until one answers. A source whose breaker is open is passed
over, unless a cached fragment stands in for it. A failure of a backend is recorded on the breaker
of its source; that a request is given up, or that its own time is over, is not.

* `Resolver.ask` — tries one source, up to the call of its backend.
* `Resolver.settle` — what the end of a fetch brings.
* `Resolver.resolve` — the content of a tag, or that all sources have failed.

Within a resolution, the timers count milliseconds from its beginning; the clock of the world goes
on with them, by the end of each fetch. A fetch ends when its backend answers, when its time is
over, or when its request is given up, whichever comes first.
-/

namespace EdgeInclude

/-- How tags are resolved. -/
structure Resolver where
  registry : Registry
  breakers : BreakerPolicy
  /-- The time that a fetch has unless its tag says otherwise. -/
  timeout : Duration
  /-- The lifetime of fragments unless their tag says otherwise. -/
  lifetime : Duration
  /-- The largest fragment that is taken. -/
  maxBody : Nat
  deriving DecidableEq, Repr

/-- A tag of a parsed page, with the numbers of both. -/
structure Seat where
  page : Nat
  index : Nat
  tag : Include
  deriving DecidableEq, Repr

namespace Seat

/-- The source of the tag. -/
def source (s : Seat) (src : Source) : SourceId := ⟨s.page, s.index, src.index⟩

/-- The tags of a page, counted from `index`. -/
def ofPage (page index : Nat) : Page → List Seat
  | [] => []
  | t :: rest => ⟨page, index, t⟩ :: ofPage page (index + 1) rest

end Seat

/-- What a tag is resolved for: the tag, the request that needs it, and when it is given up. -/
structure Errand where
  seat : Seat
  request : Request
  departure : Departure
  deriving DecidableEq, Repr

/-- A fetch that is under way, with its end. -/
structure Fetch where
  source : Source
  url : Text
  cacheKey : Text
  admission : Admission
  /-- Whether the deadline of the request is what limits its time. -/
  bound : Bool
  /-- When it ends, by the timers. -/
  ends : Nat
  /-- The times of the clock at which it has begun and ends. -/
  began : Nat
  ended : Nat
  outcome : Except Failure Response

namespace Resolver

variable {σ : Type}

/-! ## 1. What a tag asks for -/

/-- The time that a fetch has, and whether that is the time left for the request. -/
def budget (v : Resolver) (tag : Include) (r : Request) (now : Nat) : Duration × Bool :=
  let t := if tag.timeout == 0 then v.timeout else tag.timeout
  match r.remaining? now with
  | some left => if left < t then (left, true) else (t, false)
  | none => (t, false)

/-- The lifetime of a tag's fragment. -/
def lifetimeOf (v : Resolver) (tag : Include) : Duration :=
  if tag.lifetime == 0 then v.lifetime else tag.lifetime

/-- The key that a tag asks for. -/
def keyOf (tag : Include) (r : Request) : Option Text := tag.key.map fun k => k.render r []

/-- The call that fetches a source. -/
def call (v : Resolver) (e : Errand) (url : Text) (timeout : Duration) : Call where
  url := url
  key := keyOf e.seat.tag e.request
  timeout := timeout
  maxBody := v.maxBody
  headers := e.seat.tag.forwarded.select e.request.headers
  method := e.request.method
  uri := e.request.target.text
  remote := e.request.remote

/-- The failure of a tag whose sources have all failed. -/
def exhausted (tag : Include) (attempts : Nat) : Failure :=
  .exhausted tag.raw.describe attempts tag.fallback

/-! ## 2. One source -/

/-- The end of a fetch that begins at `time`: the answer goes before the end of its time. -/
def ending (url : Text) (timeout : Duration) (time : Nat) (a : Answer) :
    Nat × Except Failure Response :=
  let limit := timeout.ceilMillis
  let tooLate := (time + limit, Except.error (Failure.timeout
    s!"{String.ofList url} exceeded {timeout.text}"))
  match a.after with
  | some d => if d ≤ limit then (time + d, a.result) else tooLate
  | none => tooLate

/-- The same for a request that may be given up. -/
def cutShort (url : Text) (departure : Departure) (e : Nat × Except Failure Response) :
    Nat × Except Failure Response :=
  match departure with
  | .after n => if n < e.1 then (n, .error (.cancelled (String.ofList url))) else e
  | _ => e

/-- What comes of trying a source. -/
inductive Asked where
  /-- A cached fragment stands in for it. -/
  | served (content : Bytes)
  /-- The time of the request is over. -/
  | late
  /-- Its breaker is open, or no backend serves it. -/
  | passedOver
  | fetching (f : Fetch)

/-- The cached fragment of a tag that has a lifetime. -/
def lookup (v : Resolver) (tag : Include) (key : Text) (w : World σ) : World σ × Option Bytes :=
  if v.lifetimeOf tag == 0 then (w, none) else w.cached key

/-- Calls the backend of a source whose breaker has let the request through. -/
def launch (v : Resolver) (o : Surroundings σ) (e : Errand) (s : Source) (url : Text) (time : Nat)
    (budget : Duration × Bool) (admission : Admission) (w : World σ) : World σ × Asked :=
  match v.registry.find url s.isUrl with
  | .error _ => (w.onBreaker (e.seat.source s) (·.release admission), .passedOver)
  | .ok backend =>
    let (reach, answer) := backend.fetch o w.reach (v.call e url budget.1)
    let (ends, outcome) := cutShort url e.departure (ending url budget.1 time answer)
    ({ w with reach := reach }, .fetching
      ⟨s, url, Fragment.keyOf url (keyOf e.seat.tag e.request), admission, budget.2, ends, w.now,
        w.now + o.pace * (ends - time), outcome⟩)

/-- Tries a source at a time of the resolution. -/
def ask (v : Resolver) (o : Surroundings σ) (e : Errand) (s : Source) (time : Nat) (w : World σ) :
    World σ × Asked :=
  let url := s.value.render e.request []
  let (w, found) := v.lookup e.seat.tag (Fragment.keyOf url (keyOf e.seat.tag e.request)) w
  match found with
  | some content => (w.count (·.cacheHit), .served content)
  | none =>
    let budget := v.budget e.seat.tag e.request w.now
    if budget.1 == 0 then (w, .late)
    else
      let (b, admission) := (w.breaker (e.seat.source s)).grant v.breakers w.now
      match admission with
      | none => (w.count (·.skip), .passedOver)
      | some a => v.launch o e s url time budget a (w.setBreaker (e.seat.source s) b)

/-! ## 3. The end of a fetch -/

/-- What the end of a fetch brings. -/
inductive Settled where
  | won (r : Response)
  /-- The request has been given up. -/
  | gone (e : Failure)
  /-- The time of the request is over. -/
  | late
  /-- The next source is to be tried. -/
  | next

/-- Whether a failure is the end of some time. -/
def isTimeout : Failure → Bool
  | .timeout _ => true
  | _ => false

/-- What a source's response gives to the page. -/
def returned (tag : Include) (r : Response) : Response :=
  { r with headers := (tag.returned.select r.headers).filterNames isReturnable }

/-- Keeps a fragment that has a lifetime. -/
def store (v : Resolver) (tag : Include) (key : Text) (data : Bytes) (w : World σ) : World σ :=
  if v.lifetimeOf tag == 0 then w else w.keep key data (v.lifetimeOf tag)

/-- Records a failure on a breaker, or gives its probe back. -/
def blame (e : Failure) (a : Admission) (now : Nat) (b : Breaker) : Breaker :=
  if e.tripsBreaker then b.fail now else b.release a

/-- What the end of a fetch brings, at its time of the clock. -/
def settle (v : Resolver) (e : Errand) (f : Fetch) (w : World σ) : World σ × Settled :=
  let w := w.reaching f.ended
  let took := w.now - f.began
  let id := e.seat.source f.source
  match f.outcome with
  | .ok r =>
    let w := (w.onBreaker id Breaker.succeed).count (·.fetch true took)
    (v.store e.seat.tag f.cacheKey r.content w, .won (returned e.seat.tag r))
  | .error err =>
    if err.isCancelled then
      ((w.onBreaker id (·.release f.admission)).count (·.cancel), .gone err)
    else if isTimeout err && f.bound then
      ((w.onBreaker id (·.release f.admission)).count (·.fetch false took), .late)
    else
      ((w.onBreaker id (blame err f.admission w.now)).count (·.fetch false took), .next)

/-! ## 4. All sources -/

/-- What has come of a tag, and how often a backend has been asked for it. -/
structure Outcome where
  attempts : Nat
  result : Except Failure Response

/-- The outcome of a tag whose sources have all failed. -/
def giveUp (tag : Include) (attempts : Nat) : Outcome :=
  ⟨attempts, .error (exhausted tag attempts)⟩

/-- `resolve` for the sources that are left, at a time of the resolution. -/
def resolveFrom (v : Resolver) (o : Surroundings σ) (e : Errand) :
    List Source → (time attempts : Nat) → World σ → World σ × Outcome
  | [], _, attempts, w => (w, giveUp e.seat.tag attempts)
  | s :: rest, time, attempts, w =>
    match v.ask o e s time w with
    | (w, .served content) => (w, ⟨attempts, .ok ⟨.empty, content⟩⟩)
    | (w, .late) => (w, giveUp e.seat.tag attempts)
    | (w, .passedOver) => resolveFrom v o e rest time attempts w
    | (w, .fetching f) =>
      match v.settle e f w with
      | (w, .won r) => (w, ⟨attempts + 1, .ok r⟩)
      | (w, .gone err) => (w, ⟨attempts + 1, .error err⟩)
      | (w, .late) => (w, giveUp e.seat.tag (attempts + 1))
      | (w, .next) => resolveFrom v o e rest f.ends (attempts + 1) w

/-- What can be told of a tag without asking a source: a faulty tag fails, and so does any tag of a
request that has been given up. -/
def refusal? (e : Errand) : Option Failure :=
  if e.seat.tag.fault.isSome then some (exhausted e.seat.tag 0)
  else if e.departure == .already then some (.cancelled e.seat.tag.raw.describe)
  else none

/-- Resolves a tag. -/
def resolve (v : Resolver) (o : Surroundings σ) (e : Errand) (w : World σ) : World σ × Outcome :=
  match refusal? e with
  | some f => (w, ⟨0, .error f⟩)
  | none => v.resolveFrom o e e.seat.tag.sources 0 0 w

/-- The resolver of a configuration. -/
def ofConfig (registry : Registry) (c : Config) : Resolver :=
  ⟨registry, c.breakers, c.timeout, c.lifetime, c.maxBody⟩

end Resolver

end EdgeInclude
