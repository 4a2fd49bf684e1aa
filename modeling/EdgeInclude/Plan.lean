import EdgeInclude.Eligibility
import EdgeInclude.Injector
import EdgeInclude.Tag.Include

/-!
# How a page goes out

While the body of a page arrives, a plan tells what is known about the page that goes out: nothing
yet, its replacements and the fields that its fragments return, or that it passes unchanged.

* `headersWith` — the header fields of a page with replacements.
* `Plan.headers`, `Plan.injector` — header fields and body of the page, once they are known.
-/

namespace EdgeInclude

/-- What is put into a page: replacements, returned fields, and how many tags failed. -/
structure Resolution where
  tags : Replacements
  headers : Headers
  fallbacks : Nat
  deriving DecidableEq, Repr

/-- The number as header value. -/
def lengthValue (n : UInt64) : Bytes := Text.utf8 (Nat.toDigits 10 n.toNat)

/-- The header fields of a page with replacements: the declared length is adjusted, and returned
fields are added, except those of the framing. -/
def headersWith (origin : Headers) (tags : Replacements) (returned : Headers) :
    Except Failure Headers := do
  let h ← match declaredLength? origin with
    | some n => (tags.adjust n).map fun m => origin.insert "content-length".toList (lengthValue m)
    | none => .ok origin
  return h.appendAll (returned.filterNames isReturnable)

/-- What is known about the page that goes out. -/
inductive Plan.State where
  | pending
  | ready (tags : Replacements) (returned : Headers)
  | bypass
  deriving DecidableEq, Repr

/-- A plan for a page with the header fields of its origin. -/
structure Plan where
  origin : Headers
  state : Plan.State
  /-- Whether the page passes unchanged because of its tags. -/
  degraded : Bool
  deriving DecidableEq, Repr

namespace Plan

/-- A plan for a page of which nothing is known. -/
def pending (origin : Headers) : Plan := ⟨origin, .pending, false⟩

/-- A plan for a page that passes unchanged. -/
def passing (origin : Headers) : Plan := ⟨origin, .bypass, false⟩

/-! ## 1. Deciding -/

def isReady (p : Plan) : Bool := p.state != .pending

def isBypassed (p : Plan) : Bool := p.state == .bypass

/-- The number of replacements. -/
def tagCount (p : Plan) : Nat :=
  match p.state with
  | .ready tags _ => tags.length
  | _ => 0

/-- The plan with replacements. -/
def resolve (p : Plan) (r : Resolution) : Plan := { p with state := .ready r.tags r.headers }

/-- The plan of a page that passes unchanged after all. -/
def bypass (p : Plan) : Plan := { p with state := .bypass }

/-- The plan of a page that passes unchanged because of its tags. -/
def degrade (p : Plan) : Plan := { p.bypass with degraded := true }

/-- Looks at the first chunk of the body: a binary page passes unchanged. -/
def observe (p : Plan) (chunk : Bytes) : Plan :=
  match p.state with
  | .ready _ _ => if !chunk.isEmpty && !Payload.looksLikeText chunk then p.bypass else p
  | _ => p

/-! ## 2. Going out -/

/-- The header fields of the page. -/
def headers (p : Plan) : Except Failure Headers :=
  match p.state with
  | .pending => .error (.internal "response headers requested before the tag set is known")
  | .bypass => .ok p.origin
  | .ready tags returned => headersWith p.origin tags returned

/-- What puts the replacements into the body of the page. -/
def injector (p : Plan) : Except Failure Injector :=
  match p.state with
  | .pending => .error (.internal "injector requested before the tag set is known")
  | .bypass => .ok .passing
  | .ready tags _ => .ok (.new tags)

end Plan

end EdgeInclude
