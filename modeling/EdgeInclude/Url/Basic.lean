import EdgeInclude.Url.Host

/-!
# Addresses

An address has a scheme, often an authority with a host, a path, and maybe a query and a fragment.

* `Url` — the parts of an address.
* `Url.text` — the address as a text.
* `Url.sameOrigin` — whether two addresses agree on scheme, host and port.
-/

namespace EdgeInclude

/-- Who and where an address points to. An empty host is no host. -/
structure Authority where
  username : Text
  password : Option Text
  host : Option Host
  port : Option Nat
  deriving DecidableEq, Repr

/-- What an address points to: steps, each behind a slash, or a text without structure. -/
inductive UrlPath where
  | steps (s : List Text)
  | free (s : Text)
  deriving DecidableEq, Repr

/-- The path as a text. -/
def UrlPath.text : UrlPath → Text
  | .steps s => s.flatMap fun t => '/' :: t
  | .free s => s

/-- An address. -/
structure Url where
  scheme : Text
  authority : Option Authority
  path : UrlPath
  query : Option Text
  fragment : Option Text
  deriving DecidableEq, Repr

namespace Url

/-! ## 1. Parts -/

/-- The port that a scheme uses when an address has none. -/
def defaultPort (scheme : Text) : Option Nat :=
  if scheme == "http".toList || scheme == "ws".toList then some 80
  else if scheme == "https".toList || scheme == "wss".toList then some 443
  else if scheme == "ftp".toList then some 21
  else none

/-- Whether a scheme addresses files. -/
def isFile (scheme : Text) : Bool := scheme == "file".toList

/-- Whether a scheme has a host and a path by its nature. -/
def isSpecial (scheme : Text) : Bool := (defaultPort scheme).isSome || isFile scheme

def host? (u : Url) : Option Host := u.authority.bind (·.host)

def port? (u : Url) : Option Nat := u.authority.bind (·.port)

/-- The port that is used, written or not. -/
def effectivePort (u : Url) : Option Nat :=
  match u.port? with
  | some p => some p
  | none => defaultPort u.scheme

/-- Whether two addresses agree on scheme, host and port. -/
def sameOrigin (u v : Url) : Bool :=
  u.scheme == v.scheme && u.host? == v.host? && u.effectivePort == v.effectivePort

/-! ## 2. Writing -/

/-- The host as a text, empty if there is none. -/
def hostText (u : Url) : Text := (u.host?.map Host.text).getD []

/-- The user part with its mark. -/
def userText (a : Authority) : Text :=
  match a.password with
  | some p => a.username ++ ':' :: p ++ ['@']
  | none => if a.username.isEmpty then [] else a.username ++ ['@']

/-- The authority with its mark. -/
def authorityText (a : Authority) : Text :=
  "//".toList ++ userText a ++ (a.host.map Host.text).getD [] ++
    match a.port with
    | some p => ':' :: Nat.toDigits 10 p
    | none => []

/-- An optional part behind its mark. -/
def marked (mark : Char) : Option Text → Text
  | some s => mark :: s
  | none => []

/-- A dot that keeps a path from being taken for an authority. -/
def guard (u : Url) : Text :=
  match u.authority, u.path with
  | none, .steps ([] :: _ :: _) => "/.".toList
  | _, _ => []

/-- The address as a text. -/
def text (u : Url) : Text :=
  u.scheme ++ ':' :: (u.authority.map authorityText).getD [] ++ u.guard ++ UrlPath.text u.path ++
    marked '?' u.query ++ marked '#' u.fragment

end Url

end EdgeInclude
