import EdgeInclude.Http.Headers
import EdgeInclude.Metrics
import EdgeInclude.Number.Decimal

/-!
# Metrics as text

Monitoring systems read metrics as lines of text: for each metric its help, its type and its value.

* `Metrics.exposition` — all counters, rates and averages.
* `Metrics.route` — the reply to a request at the endpoint for monitoring.
-/

namespace EdgeInclude.Metrics

/-! ## 1. Lines -/

/-- One metric: its help, its type and its value, and an empty line. -/
def metric (name kind help value : String) : String :=
  s!"# HELP esi_{name} {help}\n# TYPE esi_{name} {kind}\nesi_{name} {value}\n\n"

def counter (name help : String) (n : UInt64) : String :=
  metric name "counter" help (toString n.toNat)

/-- A gauge has two places. -/
def gauge (name help : String) (x : Float) : String :=
  metric name "gauge" help (Decimal.fixed 2 x)

/-! ## 2. All metrics -/

def requestLines (m : Metrics) : String :=
  counter "requests_total" "Total number of requests seen" m.requests.total ++
  counter "processed_requests_total" "Requests whose body went through ESI processing"
    m.requests.processed ++
  counter "passthrough_requests_total" "Requests proxied without ESI processing"
    m.requests.passedThrough ++
  counter "degraded_requests_total" "Pages served unmodified after a scan failure"
    m.requests.degraded

def pageLines (m : Metrics) : String :=
  counter "page_cache_hits_total" "Parsed page cache hits" m.pages.hits ++
  counter "page_cache_misses_total" "Parsed page cache misses" m.pages.misses ++
  gauge "page_cache_hit_rate" "Parsed page cache hit rate percentage" m.pageHitRate ++
  counter "parses_total" "Page bodies scanned for tags" m.pages.parses ++
  counter "coalesced_waits_total" "Requests that waited on another request's scan" m.pages.waits

def fetchLines (m : Metrics) : String :=
  counter "fetches_total" "Resource fetches attempted" m.fetches.total ++
  counter "failed_fetches_total" "Resource fetches that failed" m.fetches.failed ++
  counter "cancelled_fetches_total" "Resource fetches abandoned on client cancel"
    m.fetches.cancelled ++
  gauge "fetch_failure_rate" "Resource fetch failure rate percentage" m.fetchFailureRate ++
  counter "breaker_skips_total" "Resources skipped because their breaker was open"
    m.fetches.skipped ++
  counter "fallbacks_rendered_total" "Tags replaced by fallback content" m.fetches.fallbacks ++
  counter "fragment_cache_hits_total" "Fragments served from the fragment cache"
    m.fetches.cacheHits

def byteLines (m : Metrics) : String :=
  counter "bytes_from_origin_total" "Body bytes received from the origin" m.bytes.fromOrigin ++
  counter "bytes_injected_total" "Fragment bytes spliced into pages" m.bytes.injected ++
  counter "bytes_to_client_total" "Body bytes sent to clients" m.bytes.toClient

def durationLines (m : Metrics) : String :=
  gauge "request_duration_ms_avg" "Average request duration in milliseconds"
    m.meanRequestMillis ++
  gauge "fetch_duration_ms_avg" "Average resource fetch duration in milliseconds"
    m.meanFetchMillis

/-- All counters, rates and averages. -/
def exposition (m : Metrics) : String :=
  m.requestLines ++ m.pageLines ++ m.fetchLines ++ m.byteLines ++ m.durationLines

/-! ## 3. The endpoint -/

/-- The reply to a request for a path; `more` stands behind the engine's own metrics. -/
def route (m : Metrics) (more path : String) : Reply :=
  if path == "/metrics" then
    .ofText 200 "text/plain; version=0.0.4; charset=utf-8" (m.exposition ++ more)
  else if path == "/health" then
    .ofText 200 "application/json" "\x7b\"status\":\"healthy\"\x7d"
  else if path == "/" then
    .ofText 200 "text/plain; charset=utf-8"
      "pingora-esi metrics\n\n/metrics  Prometheus format metrics\n/health   health check\n"
  else .ofText 404 "text/plain" "404 Not Found"

end EdgeInclude.Metrics
