import EdgeInclude.Metrics
import EdgeInclude.Page.Cache
import EdgeInclude.Page.Flight
import EdgeInclude.Tag.Include

/-!
# Parsed pages

A page is scanned once; its tags are kept and used again as long as the body has the same tags at
the same places.

* `PageStore.parse` — scans a body.
* `PageStore.load` — the tags of a body, from the cache if they fit it.
* `PageStore.loadAll` — the same for many callers at once: those that miss the same page share one
  scan of it.
-/

namespace EdgeInclude

/-- The tags of a page, under a number that no other parse has. -/
structure ParsedPage where
  id : Nat
  tags : Page
  deriving DecidableEq, Repr

/-- Parsed pages, and what it takes to parse more. -/
structure PageStore where
  cache : PageCache ParsedPage
  pool : ScannerPool
  counts : PageCounts
  /-- The number of the next page that is parsed. -/
  next : Nat
  deriving DecidableEq, Repr

namespace PageStore

/-- A store without pages. -/
def new (kind : CacheKind) (maxTagSize : Nat) : PageStore := ⟨.new kind, .new maxTagSize, .zero, 0⟩

/-! ## 1. Parsing -/

/-- Scans a body and reads its tags. -/
def parse (s : PageStore) (body : Bytes) : PageStore × Except Failure ParsedPage :=
  match s.pool.scan body with
  | (.ok tags, pool) =>
    ({ s with pool := pool, counts := s.counts.parse, next := s.next + 1 },
      .ok ⟨s.next, Page.ofTags tags⟩)
  | (.error e, pool) => ({ s with pool := pool }, .error e)

/-- Scans a body and keeps its tags. A failure is not kept. -/
def parseInto (s : PageStore) (fp : Fingerprint) (body : Bytes) :
    PageStore × Except Failure ParsedPage :=
  match s.parse body with
  | (s, .ok page) => ({ s with cache := s.cache.insert fp page }, .ok page)
  | (s, .error e) => (s, .error e)

/-! ## 2. Looking up -/

/-- The kept page of a fingerprint. -/
def peek (s : PageStore) (fp : Fingerprint) : PageStore × Option ParsedPage :=
  let (cache, found) := s.cache.get fp
  ({ s with cache := cache }, found)

/-- Removes the page of a fingerprint. -/
def remove (s : PageStore) (fp : Fingerprint) : PageStore × Bool :=
  let (cache, removed) := s.cache.remove fp
  ({ s with cache := cache }, removed)

def clear (s : PageStore) : PageStore := { s with cache := s.cache.clear }

/-- The kept page, if it fits the body. One that does not fit is removed. -/
def lookup (s : PageStore) (fp : Fingerprint) (body : Bytes) : PageStore × Option ParsedPage :=
  let (s, found) := s.peek fp
  match found with
  | some page =>
    if page.tags.fits body then ({ s with counts := s.counts.hit }, some page)
    else
      let (s, _) := s.remove fp
      ({ s with counts := s.counts.miss }, none)
  | none => ({ s with counts := s.counts.miss }, none)

/-! ## 3. Loading -/

/-- The tags of a body: the kept ones, if they fit it. -/
def load (s : PageStore) (fp : Fingerprint) (body : Bytes) :
    PageStore × Except Failure ParsedPage :=
  match s.lookup fp body with
  | (s, some page) => (s, .ok page)
  | (s, none) => s.parseInto fp body

/-- The task of loading a page, on a state that a store is part of. The scan gives way once, so that
other callers that miss the page can wait for it. -/
def job {σ : Type} (get : σ → PageStore) (set : σ → PageStore → σ) (fp : Fingerprint) (body : Bytes)
    (settle : Except Failure ParsedPage → σ → σ) :
    Job σ Fingerprint (Except Failure ParsedPage) where
  key := fp
  lookup s :=
    let (store, found) := (get s).lookup fp body
    (set s store, found.map .ok)
  start s := s
  pauses := 1
  finish s :=
    let (store, r) := (get s).parseInto fp body
    (set s store, r)
  settle role r s :=
    let s := match role with
      | .follower => set s { get s with counts := (get s).counts.wait }
      | _ => s
    settle r s

/-- The failure of a caller that never gets an answer. -/
def unanswered : Failure := .internal "page load did not finish"

/-- Loads pages for many callers at once. -/
def loadAll (s : PageStore) (calls : List (Fingerprint × Bytes)) :
    PageStore × List (Except Failure ParsedPage) :=
  let b := Batch.run .empty s
    (calls.map fun (fp, body) => (job id (fun _ s => s) fp body (fun _ s => s), none))
  (b.shared, b.tasks.map fun t =>
    match t.result? with
    | some (_, r) => r
    | none => .error unanswered)

end PageStore

end EdgeInclude
