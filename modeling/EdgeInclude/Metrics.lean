import EdgeInclude.Duration

/-!
# Metrics

Counters of what the engine has done, by the part of the engine that counts. A counter is a
word of 64 bits.

* `RequestCounts`, `PageCounts`, `FetchCounts`, `ByteCounts` — the counters of one part each.
* `Metrics` — all of them, and the rates and averages that follow from them.
* `Metrics.counters`, `Metrics.durations`, `Metrics.gauges` — the same by name.
-/

namespace EdgeInclude

/-! ## 1. Counters -/

/-- Requests, and how long they took. -/
structure RequestCounts where
  total : UInt64
  processed : UInt64
  passedThrough : UInt64
  degraded : UInt64
  micros : UInt64
  deriving DecidableEq, Repr

/-- Look-ups of parsed pages. -/
structure PageCounts where
  hits : UInt64
  misses : UInt64
  parses : UInt64
  waits : UInt64
  deriving DecidableEq, Repr

/-- Fetches of fragments, and how long they took. -/
structure FetchCounts where
  total : UInt64
  failed : UInt64
  cancelled : UInt64
  skipped : UInt64
  fallbacks : UInt64
  cacheHits : UInt64
  micros : UInt64
  deriving DecidableEq, Repr

/-- Bytes of pages. -/
structure ByteCounts where
  fromOrigin : UInt64
  injected : UInt64
  toClient : UInt64
  deriving DecidableEq, Repr

/-- Whole microseconds, as a word. -/
def Duration.micros (d : Duration) : UInt64 := UInt64.ofNat (d / 1000)

namespace RequestCounts

def zero : RequestCounts := ⟨0, 0, 0, 0, 0⟩

/-- One more request, with or without processing. -/
def request (c : RequestCounts) (processed : Bool) : RequestCounts :=
  if processed then { c with total := c.total + 1, processed := c.processed + 1 }
  else { c with total := c.total + 1, passedThrough := c.passedThrough + 1 }

/-- One more page that was served unchanged because of its tags. -/
def degrade (c : RequestCounts) : RequestCounts := { c with degraded := c.degraded + 1 }

def took (c : RequestCounts) (d : Duration) : RequestCounts :=
  { c with micros := c.micros + d.micros }

end RequestCounts

namespace PageCounts

def zero : PageCounts := ⟨0, 0, 0, 0⟩

def hit (c : PageCounts) : PageCounts := { c with hits := c.hits + 1 }

def miss (c : PageCounts) : PageCounts := { c with misses := c.misses + 1 }

def parse (c : PageCounts) : PageCounts := { c with parses := c.parses + 1 }

def wait (c : PageCounts) : PageCounts := { c with waits := c.waits + 1 }

end PageCounts

namespace FetchCounts

def zero : FetchCounts := ⟨0, 0, 0, 0, 0, 0, 0⟩

/-- One more fetch that has ended. -/
def fetch (c : FetchCounts) (ok : Bool) (d : Duration) : FetchCounts :=
  { c with
    total := c.total + 1
    failed := if ok then c.failed else c.failed + 1
    micros := c.micros + d.micros }

def cancel (c : FetchCounts) : FetchCounts := { c with cancelled := c.cancelled + 1 }

def skip (c : FetchCounts) : FetchCounts := { c with skipped := c.skipped + 1 }

def fallback (c : FetchCounts) : FetchCounts := { c with fallbacks := c.fallbacks + 1 }

def cacheHit (c : FetchCounts) : FetchCounts := { c with cacheHits := c.cacheHits + 1 }

end FetchCounts

namespace ByteCounts

def zero : ByteCounts := ⟨0, 0, 0⟩

def origin (c : ByteCounts) (n : Nat) : ByteCounts :=
  { c with fromOrigin := c.fromOrigin + UInt64.ofNat n }

def inject (c : ByteCounts) (n : Nat) : ByteCounts :=
  { c with injected := c.injected + UInt64.ofNat n }

def client (c : ByteCounts) (n : Nat) : ByteCounts :=
  { c with toClient := c.toClient + UInt64.ofNat n }

end ByteCounts

/-! ## 2. All of them -/

/-- All counters. -/
structure Metrics where
  requests : RequestCounts
  pages : PageCounts
  fetches : FetchCounts
  bytes : ByteCounts
  deriving DecidableEq, Repr

namespace Metrics

/-- All counters at zero. -/
def zero : Metrics := ⟨.zero, .zero, .zero, .zero⟩

/-- The counters by name, except those of durations. -/
def counters (m : Metrics) : List (String × UInt64) :=
  [("total_requests", m.requests.total), ("processed_requests", m.requests.processed),
    ("passthrough_requests", m.requests.passedThrough), ("degraded_requests", m.requests.degraded),
    ("page_cache_hits", m.pages.hits), ("page_cache_misses", m.pages.misses),
    ("parses", m.pages.parses), ("coalesced_waits", m.pages.waits),
    ("total_fetches", m.fetches.total), ("failed_fetches", m.fetches.failed),
    ("cancelled_fetches", m.fetches.cancelled), ("breaker_skips", m.fetches.skipped),
    ("fallbacks_rendered", m.fetches.fallbacks), ("fragment_cache_hits", m.fetches.cacheHits),
    ("bytes_from_origin", m.bytes.fromOrigin), ("bytes_injected", m.bytes.injected),
    ("bytes_to_client", m.bytes.toClient)]

/-- The totals of durations in microseconds, by name. -/
def durations (m : Metrics) : List (String × UInt64) :=
  [("total_request_duration_us", m.requests.micros),
    ("total_fetch_duration_us", m.fetches.micros)]

/-- A part in percent of a whole; nothing for a whole of zero. -/
def percent (part whole : UInt64) : Float :=
  if whole == 0 then 0 else part.toFloat / whole.toFloat * 100

/-- The mean of a total of microseconds, in milliseconds; nothing for a count of zero. -/
def meanMillis (micros count : UInt64) : Float :=
  if count == 0 then 0 else micros.toFloat / count.toFloat / 1000

/-- Which part of the look-ups of parsed pages was answered from the cache. -/
def pageHitRate (m : Metrics) : Float := percent m.pages.hits (m.pages.hits + m.pages.misses)

/-- Which part of the fetches failed. -/
def fetchFailureRate (m : Metrics) : Float := percent m.fetches.failed m.fetches.total

def meanRequestMillis (m : Metrics) : Float := meanMillis m.requests.micros m.requests.total

def meanFetchMillis (m : Metrics) : Float := meanMillis m.fetches.micros m.fetches.total

/-- The rates and averages by name. -/
def gauges (m : Metrics) : List (String × Float) :=
  [("page_cache_hit_rate", m.pageHitRate), ("fetch_failure_rate", m.fetchFailureRate),
    ("avg_request_duration_ms", m.meanRequestMillis), ("avg_fetch_duration_ms", m.meanFetchMillis)]

end Metrics

end EdgeInclude
