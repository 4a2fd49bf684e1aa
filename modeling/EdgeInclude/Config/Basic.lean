import EdgeInclude.Backend.Options
import EdgeInclude.Breaker
import EdgeInclude.Page.Cache
import EdgeInclude.Text.Quoted

/-!
# Configurations

* `Config` — everything about an engine that a site decides.
* `Config.validate` — the first thing that is wrong with a configuration.
* `Config.datum` — a configuration as a structured value.
* `Config.summary` — the lines that are shown when an engine starts.
-/

namespace EdgeInclude

/-! ## 1. Parts -/

/-- How fragments are cached. -/
structure FragmentSettings where
  enabled : Bool
  maxSize : Nat
  deriving DecidableEq, Repr

/-- Where metrics are served. -/
structure MetricsSettings where
  enabled : Bool
  address : Text
  deriving DecidableEq, Repr

/-- How pages are purged. -/
structure PurgeSettings where
  enabled : Bool
  token : Option Text
  metrics : Bool
  deriving DecidableEq, Repr

/-- A configuration. -/
structure Config where
  /-- Where the origin is. -/
  origin : Text
  /-- Where clients are served. -/
  listen : Text
  patterns : List Text
  maxFailures : Nat
  maxBackoffs : Nat
  backoffMillis : Nat
  timeoutMillis : Nat
  lifetimeSeconds : Nat
  maxBody : Nat
  maxTag : Nat
  pages : CacheKind
  fragments : FragmentSettings
  /-- Addresses of configured backends, by name in order. -/
  resources : List (Text × Text)
  /-- Whether pages may name programs. -/
  programs : Bool
  /-- Header fields that pages vary by. -/
  varyBy : List Text
  logLevel : Text
  metrics : Option MetricsSettings
  purge : Option PurgeSettings
  deriving DecidableEq, Repr

namespace FragmentSettings

/-- Fragments are cached in 64 MiB. -/
def standard : FragmentSettings := ⟨true, 64 * 1024 * 1024⟩

end FragmentSettings

namespace MetricsSettings

/-- Where metrics are served if nothing else is said. -/
def standardAddress : Text := "127.0.0.1:9090".toList

end MetricsSettings

namespace Config

/-- What applies if nothing else is said. -/
def standard : Config where
  origin := "127.0.0.1:8080".toList
  listen := "0.0.0.0:6188".toList
  patterns := []
  maxFailures := 12
  maxBackoffs := 12
  backoffMillis := 1000
  timeoutMillis := 20000
  lifetimeSeconds := 0
  maxBody := 5 * 1024 * 1024
  maxTag := 4096
  pages := .locked
  fragments := .standard
  resources := []
  programs := false
  varyBy := []
  logLevel := "info".toList
  metrics := none
  purge := none

/-- The policy of all breakers. -/
def breakers (c : Config) : BreakerPolicy :=
  ⟨c.maxFailures, c.maxBackoffs, .ofMillis c.backoffMillis⟩

/-- The time that a fetch has unless its tag says otherwise. -/
def timeout (c : Config) : Duration := .ofMillis c.timeoutMillis

/-- The lifetime of fragments unless their tag says otherwise. -/
def lifetime (c : Config) : Duration := .ofSeconds c.lifetimeSeconds

/-! ## 2. Addresses of sockets -/

/-- A number of base ten, zeros in front of it allowed, not above a bound. -/
def numberUpTo (bound : Nat) (s : Text) : Bool :=
  !s.isEmpty && s.all Char.isDigit && Decimal.ofDigits s ≤ bound

/-- Whether a text is an address of 128 bits, with a zone or without. -/
def isSix (s : Text) : Bool :=
  match Text.splitLast? '%' s with
  | some (a, zone) => (Host.readSix a).toBool && numberUpTo ((1 <<< 32) - 1) zone
  | none => (Host.readSix s).toBool

/-- Whether a text is the address of a socket: four bytes, or 128 bits between brackets, and a
port. -/
def isSocketAddress (s : Text) : Bool :=
  match Text.splitLast? ':' s with
  | none => false
  | some (host, port) =>
    numberUpTo 65535 port &&
      match host with
      | '[' :: inner => inner.getLast? == some ']' && isSix inner.dropLast
      | _ => (Host.dotted? host).isSome

/-! ## 3. Checking -/

/-- The smallest limit for tags. -/
def leastMaxTag : Nat := 16

/-- The levels of log output. -/
def logLevels : List Text := ["trace", "debug", "info", "warn", "error"].map String.toList

/-- What is wrong with a configured backend. -/
def resourceFault? (name url : Text) : Option String :=
  if occursIn schemeSeparator name then
    some s!"resource alias {Text.quoted name} must not contain \"://\""
  else match Options.read url with
    | .error e => some s!"resource {Text.quoted name}: {e.message}"
    | .ok _ => none

/-- What is wrong with the limits. -/
def limitFault? (c : Config) : Option String :=
  if c.maxFailures == 0 then some "max_failures must be greater than 0"
  else if c.timeoutMillis == 0 then some "default_timeout_ms must be greater than 0"
  else if c.maxBody == 0 then some "max_body_size must be greater than 0"
  else if c.maxTag < leastMaxTag || c.maxBody < c.maxTag then
    some (s!"max_tag_size must be between {leastMaxTag} and max_body_size " ++
      s!"({c.maxBody}), got {c.maxTag}")
  else if c.fragments.enabled && c.fragments.maxSize == 0 then
    some "fragment_cache.max_size_bytes must be greater than 0 when enabled"
  else none

/-- What is wrong with the level of log output. -/
def logFault? (c : Config) : Option String :=
  let level := Text.lower c.logLevel
  if logLevels.contains level then none
  else some
    s!"Invalid log_level '{String.ofList level}', must be trace, debug, info, warn or error"

/-- What is wrong with the endpoint for metrics. -/
def metricsFault? (c : Config) : Option String :=
  match c.metrics with
  | some m =>
    if m.enabled && !isSocketAddress m.address then
      some s!"metrics_endpoint.address is not a socket address: {String.ofList m.address}"
    else none
  | none => none

/-- The first thing that is wrong with a configuration. -/
def fault? (c : Config) : Option String :=
  if (Text.trim c.origin).isEmpty then some "upstream_address must not be empty"
  else if (Text.trim c.listen).isEmpty then some "listen_address must not be empty"
  else (limitFault? c).orElse fun _ =>
    if c.patterns.any fun p => (Text.trim p).isEmpty then
      some "esi_patterns must not contain empty patterns"
    else (c.resources.findSome? fun (name, url) => resourceFault? name url).orElse fun _ =>
      (logFault? c).orElse fun _ => metricsFault? c

/-- Refuses a configuration with the first thing that is wrong with it. -/
def validate (c : Config) : Except Failure Unit :=
  match c.fault? with
  | some detail => .error (.config detail)
  | none => .ok ()

/-! ## 4. As a structured value -/

/-- What a kind of cache is called. -/
def kindName : CacheKind → Text
  | .locked => "locked".toList
  | .readMostly => "read_mostly".toList

/-- Texts as a structured value. -/
def textsDatum (ss : List Text) : Datum := .list (ss.map .text)

/-- A map with names. -/
def mapOf (fields : List (String × Datum)) : Datum := .map (fields.map fun (n, d) => (n.toList, d))

/-- The endpoint for metrics as a structured value. -/
def metricsDatum (m : MetricsSettings) : Datum :=
  mapOf [("enabled", .bool m.enabled), ("address", .text m.address)]

/-- The settings of purges as a structured value. -/
def purgeDatum (p : PurgeSettings) : Datum :=
  mapOf [("enabled", .bool p.enabled), ("auth_token", (p.token.map Datum.text).getD .null),
    ("enable_metrics", .bool p.metrics)]

/-- A configuration as a structured value. -/
def datum (c : Config) : Datum :=
  mapOf [
    ("upstream_address", .text c.origin), ("listen_address", .text c.listen),
    ("esi_patterns", textsDatum c.patterns), ("max_failures", .int c.maxFailures),
    ("max_backoffs", .int c.maxBackoffs), ("backoff_base_ms", .int c.backoffMillis),
    ("default_timeout_ms", .int c.timeoutMillis), ("default_ttl_secs", .int c.lifetimeSeconds),
    ("max_body_size", .int c.maxBody), ("max_tag_size", .int c.maxTag),
    ("page_cache", mapOf [("kind", .text (kindName c.pages))]),
    ("fragment_cache",
      mapOf [("enabled", .bool c.fragments.enabled), ("max_size_bytes", .int c.fragments.maxSize)]),
    ("resources", .map (c.resources.map fun (n, u) => (n, .text u))),
    ("allow_shell_urls", .bool c.programs), ("page_variation_headers", textsDatum c.varyBy),
    ("log_level", .text c.logLevel),
    ("metrics_endpoint", (c.metrics.map metricsDatum).getD .null),
    ("purge", (c.purge.map purgeDatum).getD .null)]

/-! ## 5. In words -/

/-- The lines that are shown for a configuration when an engine starts. -/
def summary (c : Config) : List String :=
  let patterns := ", ".intercalate (c.patterns.map Text.quoted)
  ["Configuration loaded successfully",
    s!"  - Origin address: {String.ofList c.origin}",
    s!"  - Listen address: {String.ofList c.listen}",
    s!"  - Page patterns: {patterns}",
    s!"  - Breaker: {c.maxFailures} failures, {c.maxBackoffs} backoff steps " ++
      s!"of {c.backoffMillis} ms",
    s!"  - Default fetch timeout: {c.timeoutMillis} ms",
    s!"  - Page cache: {String.ofList (kindName c.pages)}",
    s!"  - Resource aliases: {c.resources.length}"]

end Config

end EdgeInclude
