import EdgeInclude.Datum.Compact
import EdgeInclude.Http.Headers
import EdgeInclude.Http.Target
import EdgeInclude.Page.Cache

/-!
# Purging parsed pages

Parsed pages never expire. A request with the method PURGE removes the page that it names, or all
pages if it has the field `x-purge-all`. A token may be required.

* `Purge.evict` — what a request removes from a cache.
* `Purge.handle` — the same behind the checks of method and token.
* `Purge.Verdict.reply` — the reply that tells what happened.
-/

namespace EdgeInclude

/-- How purge requests are answered: what pages vary by, and the token that is required. -/
structure Purge where
  varyBy : List Text
  token : Option Text
  deriving DecidableEq, Repr

/-- A request that may purge. -/
structure Purge.Request where
  method : Text
  target : Target
  headers : Headers
  deriving DecidableEq, Repr

/-- Why a request is refused for its token. -/
inductive Purge.Refusal where
  | missingToken
  | invalidToken
  deriving DecidableEq, Repr

/-- What has become of a request. -/
inductive Purge.Verdict where
  | otherMethod
  | refused (why : Purge.Refusal)
  | all (count : Nat)
  | page (path : Text) (count : Nat)
  deriving DecidableEq, Repr

namespace Purge

/-! ## 1. Checks -/

/-- Whether a method purges. -/
def isPurge (method : Text) : Bool := Text.sameLetters method "PURGE".toList

/-- The mark in front of a token in the field `authorization`. -/
def bearer : Text := "Bearer ".toList

/-- The token that a request brings. -/
def tokenOf (h : Headers) : Option Text :=
  match h.text? "authorization".toList with
  | some v => some ((List.isPrefixOf? bearer v).getD v)
  | none => h.text? "x-purge-token".toList

/-- Why a request is refused, if it is. -/
def refusal? (p : Purge) (h : Headers) : Option Refusal :=
  match p.token, tokenOf h with
  | none, _ => none
  | some _, none => some .missingToken
  | some expected, some t => if t == expected then none else some .invalidToken

/-- Whether a request asks for all pages to be removed. -/
def wantsAll (h : Headers) : Bool :=
  match h.text? "x-purge-all".toList with
  | some v => Text.sameLetters (Text.trim v) "true".toList
  | none => false

/-! ## 2. Removing -/

variable {α : Type}

/-- The methods whose pages a request removes. -/
def methods : List Text := ["GET".toList, "HEAD".toList]

/-- The path and the query of the page that a request names. -/
def pathOf (r : Request) : Text := r.target.pathAndQuery?.getD ['/']

/-- The fingerprints of the page that a request names. -/
def fingerprints (p : Purge) (r : Request) : List Fingerprint :=
  methods.map fun m => Fingerprint.ofRequest m (pathOf r) r.headers p.varyBy

/-- Removes entries; tells how many there were. -/
def removeAll (c : PageCache α) : List Fingerprint → PageCache α × Nat
  | [] => (c, 0)
  | fp :: rest =>
    let (c, removed) := c.remove fp
    let (c, n) := removeAll c rest
    (c, if removed then n + 1 else n)

/-- What a request removes. -/
def evict (p : Purge) (r : Request) (c : PageCache α) : PageCache α × Verdict :=
  if wantsAll r.headers then (c.clear, .all c.length)
  else
    let (c, n) := removeAll c (p.fingerprints r)
    (c, .page (pathOf r) n)

/-- Answers a request. -/
def handle (p : Purge) (r : Request) (c : PageCache α) : PageCache α × Verdict :=
  if !isPurge r.method then (c, .otherMethod)
  else match p.refusal? r.headers with
    | some why => (c, .refused why)
    | none => p.evict r c

/-! ## 3. Replies -/

namespace Verdict

def status : Verdict → Nat
  | otherMethod => 405
  | refused _ => 401
  | _ => 200

def count : Verdict → Nat
  | all n | page _ n => n
  | _ => 0

def path? : Verdict → Option Text
  | page p _ => some p
  | _ => none

def message : Verdict → String
  | otherMethod => "Only PURGE method is allowed"
  | refused _ => "Invalid or missing authentication token"
  | all n => s!"Purged all {n} parsed pages"
  | page p n =>
    if n == 0 then s!"No parsed pages found for {String.ofList p}"
    else s!"Purged {n} parsed pages for {String.ofList p}"

/-- What has become of a request, as a structured value. -/
def datum (v : Verdict) : Datum :=
  .map [
    ("success".toList, .bool (v.status == 200)),
    ("purged_count".toList, .int v.count),
    ("path".toList, (v.path?.map Datum.text).getD .null),
    ("message".toList, .text v.message.toList)]

/-- The reply that tells what has become of a request. -/
def reply (v : Verdict) : Reply :=
  (Reply.ofText v.status "application/json" (String.ofList v.datum.compact)).withField
    "cache-control" "no-cache, no-store, must-revalidate"

end Verdict

end Purge

end EdgeInclude
