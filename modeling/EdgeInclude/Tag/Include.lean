import EdgeInclude.Condition
import EdgeInclude.Tag.Attributes
import EdgeInclude.Tag.Scanner

/-!
# Include tags

An include tag names the sources of a fragment, in the order in which they are tried, and
says how they are fetched and what stands in when none of them answers.

* `Include.ofRaw` — a tag that has not been read yet.
* `Include.read` — reads the attributes. A fault is kept on the tag, so that its fallback
  text can stand in for it; attributes before the fault have taken effect.
* `Page` — the tags of a page, in order.
* `Page.fits` — whether a body has the same tags at the same places.
-/

namespace EdgeInclude

/-! ## 1. Parts of a tag -/

/-- One place that a fragment can be fetched from. -/
structure Source where
  index : Nat
  value : Value
  /-- Whether the source is an address with a scheme; else it names a configured backend. -/
  isUrl : Bool
  deriving DecidableEq, Repr

namespace Source

/-- The mark between a scheme and what it applies to. -/
def schemeMark : Text := "://".toList

/-- The source that a text writes. -/
def compile (index : Nat) (raw : Text) : Except ParseFault Source :=
  (Value.compile raw).map fun v => ⟨index, v, occursIn schemeMark raw⟩

/-- The address of a source that is no template. -/
def url? (s : Source) : Option Text :=
  match s.value with
  | .literal u => some u
  | .template _ => none

end Source

/-- Which header fields are passed on. -/
structure HeaderPolicy where
  all : Bool
  names : List Text
  deriving DecidableEq, Repr

namespace HeaderPolicy

/-- No field. -/
def none : HeaderPolicy := ⟨false, []⟩

/-- The policy that a text writes: `all`, or names between commas. -/
def read (raw : Text) : HeaderPolicy :=
  let s := Text.trim raw
  if s == "all".toList then ⟨true, []⟩
  else ⟨false, ((Text.pieces ',' s).map Text.trim).filter (!·.isEmpty)⟩

def isEmpty (p : HeaderPolicy) : Bool := !p.all && p.names.isEmpty

/-- Whether a field of this name is passed on. -/
def allows (p : HeaderPolicy) (name : Text) : Bool :=
  p.all || p.names.any (Text.sameLetters · name)

/-- The fields of a header block that are passed on. -/
def select (p : HeaderPolicy) (h : Headers) : Headers := h.filterNames p.allows

end HeaderPolicy

/-- Fields of a fragment's response that never reach the page: its framing belongs to the
origin's response. -/
def framingFields : List Text :=
  ["content-length", "content-type", "content-encoding", "transfer-encoding", "connection",
    "keep-alive", "proxy-connection", "te", "trailer", "upgrade"].map String.toList

/-- Whether a field of a fragment's response may be added to the page's response. -/
def isReturnable (name : Text) : Bool := !framingFields.any (Text.sameLetters · name)

/-! ## 2. Tags -/

/-- An include tag. Zero for a duration means that the configured one applies. -/
structure Include where
  raw : RawTag
  sources : List Source
  key : Option Value
  lifetime : Duration
  timeout : Duration
  fallback : Option Text
  forwarded : HeaderPolicy
  returned : HeaderPolicy
  condition : Option Condition
  fault : Option ParseFault
  deriving DecidableEq, Repr

namespace Include

/-- A tag that has not been read yet. -/
def ofRaw (t : RawTag) : Include :=
  ⟨t, [], none, 0, 0, none, .none, .none, none, none⟩

/-- The kind of a tag and the text of its attributes. -/
def splitKind (s : Text) : Text × Text :=
  let s := Text.trimStart s
  (s.takeWhile (!Text.isAsciiBlank ·), s.dropWhile (!Text.isAsciiBlank ·))

/-- The duration that an attribute writes. -/
def duration (v : Text) : Except ParseFault Duration :=
  match Duration.read? v with
  | some d => .ok d
  | none => .error (.duration v)

/-- The tag with one more attribute. An attribute of an unknown name changes nothing. -/
def set (i : Include) (a : Attribute) : Except ParseFault Include :=
  if a.name == "src".toList then
    (Source.compile i.sources.length a.value).map fun s => { i with sources := i.sources ++ [s] }
  else if a.name == "key".toList then
    (Value.compile a.value).map fun v => { i with key := some v }
  else if a.name == "condition".toList then
    (Condition.parse a.value).map fun c => { i with condition := some c }
  else if a.name == "timeout".toList then
    (duration a.value).map fun d => { i with timeout := d }
  else if a.name == "ttl".toList then
    (duration a.value).map fun d => { i with lifetime := d }
  else if a.name == "forwardheaders".toList then
    .ok { i with forwarded := HeaderPolicy.read a.value }
  else if a.name == "returnheaders".toList then
    .ok { i with returned := HeaderPolicy.read a.value }
  else .ok i

/-- The tag with the attributes up to the first faulty one, and the fault. -/
def setAll (i : Include) : List Attribute → Include × Option ParseFault
  | [] => (i, if i.sources.isEmpty then some .noSource else none)
  | a :: rest =>
    match i.set a with
    | .ok i' => setAll i' rest
    | .error f => (i, some f)

/-- The text that the first `onerror` attribute gives. -/
def fallbackOf (as : List Attribute) : Option Text :=
  (as.find? fun a => a.name == "onerror".toList).map (·.value)

/-- The tag with the fallback text that its attributes give, if they give one. -/
def withFallback (i : Include) (as : List Attribute) : Include :=
  match fallbackOf as with
  | some t => { i with fallback := some t }
  | none => i

/-- Reads the attributes; the fallback text takes effect before anything else. -/
def readFields (i : Include) : Include × Option ParseFault :=
  match Utf8.decode i.raw.interior with
  | .error f => (i, some (.notUtf8 f))
  | .ok s =>
    let (kind, rest) := splitKind s
    match Attribute.readAll rest with
    | .error f => (i, some f)
    | .ok as =>
      let i := i.withFallback as
      if kind != "include".toList then (i, some (.unsupportedKind kind)) else i.setAll as

/-- Reads the attributes; a fault is kept on the tag. -/
def read (i : Include) : Include × Option ParseFault :=
  match i.readFields with
  | (i', some f) => ({ i' with fault := some f }, some f)
  | (i', none) => (i', none)

end Include

/-! ## 3. Pages -/

/-- The tags of a page, in order. -/
abbrev Page := List Include

namespace Page

/-- The tags of a body, read. -/
def ofTags (tags : List RawTag) : Page := tags.map fun t => (Include.ofRaw t).read.1

/-- How many tags of a page are faulty. -/
def faulty (p : Page) : Nat := p.countP (·.fault.isSome)

/-- The tags as they stand in the page. -/
def raws (p : Page) : List RawTag := p.map (·.raw)

/-- Whether a body has the same tags at the same places. -/
def fits (p : Page) (body : Bytes) : Bool := p.raws.all (·.fits body)

end Page

end EdgeInclude
