import EdgeInclude.Config.Basic
import EdgeInclude.Page.Parser
import EdgeInclude.Purge.Basic
import EdgeInclude.Resolver.Agenda

/-!
# Processing pages

* `Engine` — a configuration and its backends; `Engine.State` — what an engine has and knows.
* `Engine.process` — the page that goes out for a whole body.
* `Engine.beginStream`, `Engine.completePlan` — the same for a body that arrives in chunks: the
  plan is known at once for a page whose tags are kept, else once the body is complete.

A body that is binary, that has no tags, or that cannot be scanned goes out unchanged.
-/

namespace EdgeInclude

/-! ## 1. Engines -/

/-- A configuration and its backends. -/
structure Engine where
  config : Config
  registry : Registry
  deriving DecidableEq, Repr

/-- What an engine has and knows. -/
structure Engine.State (σ : Type) where
  pages : PageStore
  world : World σ
  requests : RequestCounts
  bytes : ByteCounts
  deriving DecidableEq, Repr

/-- A page that goes out. -/
structure Served where
  body : Bytes
  headers : Headers
  tags : Nat
  fallbacks : Nat
  /-- Whether the page goes out unchanged because of its tags. -/
  degraded : Bool
  deriving DecidableEq, Repr

namespace Engine

variable {σ : Type}

/-- The engine of a configuration. -/
def ofConfig (c : Config) : Except Failure Engine := do
  c.validate
  let r ← Registry.ofResources c.programs c.resources
  return ⟨c, r⟩

/-- How the engine resolves tags. -/
def resolver (e : Engine) : Resolver := .ofConfig e.registry e.config

/-- The cache of fragments of a configuration. -/
def fragmentCache (c : Config) : Option FragmentCache :=
  if c.fragments.enabled then some (.new (some c.fragments.maxSize)) else none

/-- An engine that has done nothing. -/
def start (e : Engine) (outside : σ) (stores : List (Nat × Store)) (now : Nat) : State σ where
  pages := .new e.config.pages e.config.maxTag
  world := .new outside stores now (fragmentCache e.config)
  requests := .zero
  bytes := .zero

/-- All counters. -/
def State.metrics (s : State σ) : Metrics := ⟨s.requests, s.pages.counts, s.world.counts, s.bytes⟩

/-- The fingerprint of the page that a request asks for. -/
def fingerprint (e : Engine) (r : Request) : Fingerprint :=
  .ofRequest r.method (r.target.pathAndQuery?.getD ['/']) r.headers e.config.varyBy

/-- Whether a request may be answered with a processed page. -/
def accepts (e : Engine) (r : Request) : Bool :=
  Eligibility.ofRequest e.config.patterns r.method r.target.path r.headers

/-- How purge requests are answered. -/
def purge (e : Engine) (token : Option Text) : Purge := ⟨e.config.varyBy, token⟩

/-! ## 2. Steps -/

/-- The tags of a body. -/
def load (e : Engine) (r : Request) (body : Bytes) (s : State σ) :
    State σ × Except Failure ParsedPage :=
  let (pages, p) := s.pages.load (e.fingerprint r) body
  ({ s with pages := pages }, p)

/-- What is put into a page. -/
def resolveAll (e : Engine) (o : Surroundings σ) (p : ParsedPage) (r : Request) (d : Departure)
    (s : State σ) : State σ × Except Failure Resolution :=
  let (w, res) := e.resolver.resolveAll o p.id p.tags r d s.world
  ({ s with world := w }, res)

/-- A page that goes out as it came. -/
def unchanged (origin : Headers) (body : Bytes) (degraded : Bool) : Served :=
  ⟨body, origin, 0, 0, degraded⟩

/-- Whether a failure to scan a page lets it go out unchanged. -/
def isMalformed : Failure → Bool
  | .malformedTag .. => true
  | _ => false

/-- Counts the bytes that are put into a page. -/
def countInjected (n : Nat) (s : State σ) : State σ := { s with bytes := s.bytes.inject n }

/-- Counts a page that goes out unchanged because of its tags. -/
def countDegraded (s : State σ) : State σ := { s with requests := s.requests.degrade }

/-- The page that goes out with replacements. -/
def build (origin : Headers) (body : Bytes) (res : Resolution) : Except Failure Served := do
  let headers ← headersWith origin res.tags res.headers
  let out ← inject body res.tags
  return ⟨out, headers, res.tags.length, res.fallbacks, false⟩

/-- The page that goes out for what has been resolved, with its bytes counted. -/
def finish (origin : Headers) (body : Bytes) (res : Except Failure Resolution) (s : State σ) :
    State σ × Except Failure Served :=
  match res with
  | .error e => (s, .error e)
  | .ok res =>
    match build origin body res with
    | .error e => (s, .error e)
    | .ok page => (countInjected res.tags.dataLength s, .ok page)

/-! ## 3. Whole bodies -/

/-- The page that goes out for a whole body. -/
def process (e : Engine) (o : Surroundings σ) (r : Request) (origin : Headers) (body : Bytes)
    (d : Departure) (s : State σ) : State σ × Except Failure Served :=
  let s := { s with bytes := s.bytes.origin body.length }
  if !Payload.looksLikeText body then (s, .ok (unchanged origin body false))
  else match e.load r body s with
    | (s, .error err) =>
      if isMalformed err then (countDegraded s, .ok (unchanged origin body true))
      else (s, .error err)
    | (s, .ok page) =>
      if page.tags.isEmpty then (s, .ok (unchanged origin body false))
      else
        let (s, res) := e.resolveAll o page r d s
        finish origin body res s

/-! ## 4. Bodies in chunks -/

/-- The plan for a page of which only the request is known. -/
def beginStream (e : Engine) (o : Surroundings σ) (r : Request) (origin : Headers) (d : Departure)
    (s : State σ) : State σ × Except Failure Plan :=
  if r.method == Request.head then
    (s, .ok (.passing (origin.remove "content-length".toList)))
  else
    let (pages, found) := s.pages.peek (e.fingerprint r)
    let s := { s with pages := pages }
    match found with
    | none => (s, .ok (.pending origin))
    | some page =>
      let s := { s with pages := { s.pages with counts := s.pages.counts.hit } }
      let (s, res) := e.resolveAll o page r d s
      (s, res.map fun res => (Plan.pending origin).resolve res)

/-- The plan, once the body is complete. -/
def completePlan (e : Engine) (o : Surroundings σ) (p : Plan) (r : Request) (body : Bytes)
    (d : Departure) (s : State σ) : State σ × Except Failure Plan :=
  if p.isReady then (s, .ok p)
  else if !Payload.looksLikeText body then (s, .ok p.bypass)
  else match e.load r body s with
    | (s, .error err) =>
      if isMalformed err then (countDegraded s, .ok p.degrade) else (s, .error err)
    | (s, .ok page) =>
      let (s, res) := e.resolveAll o page r d s
      (s, res.map p.resolve)

/-- Tells all backends to close. -/
def shutdown (e : Engine) (o : Surroundings σ) (s : State σ) : State σ :=
  { s with world := { s.world with reach := e.registry.closeAll o s.world.reach } }

end Engine

end EdgeInclude
