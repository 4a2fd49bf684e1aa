import EdgeInclude.Backend.Options
import EdgeInclude.Text.Quoted

/-!
# Which backend serves a source

Addresses go to the backend of their scheme, every other source to the backend that is configured
under its name.

* `Backend` — the kinds of backends.
* `Backend.ofOptions` — the backend that an address of options describes.
* `Registry.find` — the backend of a source, or why there is none.
* `Registry.ofResources` — the registry of a configuration.
-/

namespace EdgeInclude

/-! ## 1. Backends -/

/-- A backend. -/
inductive Backend where
  /-- Fetches from the web, with a base address or without. -/
  | web (base : Option Url)
  /-- Runs a program, a configured one or the one that a call names. -/
  | program (path : Option Text)
  /-- Looks keys up in the store of a number. -/
  | store (id : Nat)
  /-- A backend that lives elsewhere, under a number and a name. -/
  | custom (id : Nat) (name : Text)
  deriving DecidableEq, Repr

namespace Backend

/-- What a backend is called. -/
def name : Backend → Text
  | web _ => "http".toList
  | program _ => "sh".toList
  | store _ => "memory".toList
  | custom _ name => name

/-- Schemes of services for which a backend has to be brought along. -/
def isService (scheme : Text) : Bool :=
  ["redis", "memcache", "grpc"].any (·.toList == scheme)

/-- The backend that options describe; a store gets the number `id`. -/
def ofOptions (id : Nat) (o : Options) : Except Failure Backend :=
  let scheme := String.ofList o.scheme
  if scheme == "http" || scheme == "https" then .ok (.web (some o.url))
  else if scheme == "sh" then .ok (.program (if o.path.isEmpty then none else some o.path))
  else if scheme == "memory" then .ok (.store id)
  else if isService o.scheme then
    .error (.notSupported s!"no built-in {scheme} client; register a handler for it")
  else .error (.notSupported s!"unknown scheme: {scheme}")

end Backend

/-! ## 2. Registries -/

/-- Backends by scheme, in lower case, and by name. -/
structure Registry where
  schemes : List (Text × Backend)
  aliases : List (Text × Backend)
  deriving DecidableEq, Repr

namespace Registry

def empty : Registry := ⟨[], []⟩

/-- The backend under a name. -/
def look (table : List (Text × Backend)) (name : Text) : Option Backend :=
  (table.find? (·.1 == name)).map (·.2)

/-- The table with a backend in place of the one that the name had. -/
def put (table : List (Text × Backend)) (name : Text) (b : Backend) : List (Text × Backend) :=
  (name, b) :: table.filter (·.1 != name)

/-- The registry with a backend for a scheme, in any letter case. -/
def withScheme (r : Registry) (scheme : Text) (b : Backend) : Registry :=
  { r with schemes := put r.schemes (Text.lower scheme) b }

/-- The registry with a backend under a name. -/
def withAlias (r : Registry) (name : Text) (b : Backend) : Registry :=
  { r with aliases := put r.aliases name b }

/-! ## 3. Looking up -/

/-- The backend of an address. -/
def dispatch (r : Registry) (url : Text) : Except Failure Backend := do
  let (scheme, _) ← splitScheme url
  match look r.schemes (Text.lower scheme) with
  | some b => .ok b
  | none => .error (.notSupported s!"unsupported scheme: {String.ofList scheme}")

/-- The backend under a name. -/
def byName (r : Registry) (name : Text) : Except Failure Backend :=
  match look r.aliases name with
  | some b => .ok b
  | none => .error (.notSupported s!"unknown resource alias: {String.ofList name}")

/-- The backend of a source with its value rendered: whether it is an address is known from the
source as it was written. -/
def find (r : Registry) (value : Text) (isUrl : Bool) : Except Failure Backend :=
  if isUrl then r.dispatch value else r.byName value

/-! ## 4. Building -/

/-- The registry that fetches from the web. -/
def standard : Registry :=
  (empty.withScheme "http".toList (.web none)).withScheme "https".toList (.web none)

/-- The registry with one more configured backend; stores are numbered by their place. -/
def withResource (r : Registry) (id : Nat) (name url : Text) : Except Failure Registry := do
  let o ← Options.read url
  let b ← Backend.ofOptions id o
  return r.withAlias name b

/-- The registry with configured backends, the first of them in place `id`. -/
def withResources (r : Registry) (id : Nat) : List (Text × Text) → Except Failure Registry
  | [] => .ok r
  | (name, url) :: rest => do
    let r ← r.withResource id name url
    r.withResources (id + 1) rest

/-- The registry of a configuration. Programs may be run by address only if that is allowed. -/
def ofResources (programs : Bool) (resources : List (Text × Text)) : Except Failure Registry :=
  let r := if programs then standard.withScheme "sh".toList (.program none) else standard
  r.withResources 0 resources

/-! ## 5. Showing -/

/-- A name put in its place among names in order. -/
def placeName (n : Text) (ns : List Text) : List Text :=
  ns.takeWhile (· < n) ++ n :: ns.dropWhile (· < n)

/-- The names of a table, in order. -/
def names (table : List (Text × Backend)) : List Text :=
  (table.map (·.1)).foldr placeName []

/-- The names of a registry in one line. -/
def describe (r : Registry) : String :=
  "HandlerRegistry \x7b schemes: " ++ Text.quotedList (names r.schemes) ++
    ", aliases: " ++ Text.quotedList (names r.aliases) ++ " \x7d"

end Registry

end EdgeInclude
