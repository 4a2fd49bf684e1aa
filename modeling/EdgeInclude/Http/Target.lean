import EdgeInclude.Text.Search
import EdgeInclude.Text.Utf8

/-!
# Request targets

What a request asks for: an absolute path with an optional query, a whole address with a
scheme and an authority, an authority alone, or a star.

* `Target.read?` — the target that a text writes.
* `Target.path`, `Target.query?` — its parts. An address without a path has the path `/`;
  an authority alone has none.
* `Target.pathAndQuery?` — both in one text, absent for an authority alone.
* `Target.text` — the whole target as a text.
-/

namespace EdgeInclude

/-- A request target. `rawPath` may be empty, when an address ends behind its authority. -/
structure Target where
  scheme : Option Text
  authority : Option Text
  rawPath : Text
  query? : Option Text
  deriving DecidableEq, Repr

namespace Target

/-! ## 1. Parts -/

/-- The target `/`. -/
def root : Target := ⟨none, none, ['/'], none⟩

/-- The path and the query, as they are written. -/
def written (t : Target) : Text :=
  match t.query? with
  | some q => t.rawPath ++ '?' :: q
  | none => t.rawPath

/-- The path. -/
def path (t : Target) : Text :=
  if t.scheme.isNone && t.written.isEmpty then []
  else if t.rawPath.isEmpty then ['/'] else t.rawPath

/-- The query, empty if there is none. -/
def query (t : Target) : Text := t.query?.getD []

/-- The path and the query in one text. -/
def pathAndQuery? (t : Target) : Option Text :=
  if t.scheme.isSome || t.authority.isNone then
    some (if t.written.isEmpty then ['/'] else t.written)
  else none

/-- The whole target as a text. -/
def text (t : Target) : Text :=
  (match t.scheme with
    | some s => s ++ "://".toList
    | none => []) ++
  t.authority.getD [] ++ t.path ++
  (match t.query? with
    | some q => '?' :: q
    | none => [])

/-! ## 2. Characters -/

/-- A character of a path. -/
def isPathChar (c : Char) : Bool :=
  let n := c.toNat
  n == 0x21 || n == 0x22 || (0x24 ≤ n && n ≤ 0x3B) || n == 0x3D || (0x40 ≤ n && n ≤ 0x5F) ||
    (0x61 ≤ n && n ≤ 0x7E) || 0x7F ≤ n

/-- A character of a query. -/
def isQueryChar (c : Char) : Bool :=
  let n := c.toNat
  n == 0x21 || (0x24 ≤ n && n ≤ 0x3B) || n == 0x3D || 0x3F ≤ n

/-- A character of a scheme. -/
def isSchemeChar (c : Char) : Bool :=
  c.isAlphanum || c == '+' || c == '-' || c == '.' || c == '~'

/-- A character of an authority; the percent sign is a case of its own. -/
def isAuthorityChar (c : Char) : Bool :=
  c.isAlphanum || "!$&'()*+,-.:;=@[]_~".toList.contains c

/-- A character that ends an authority. -/
def endsAuthority (c : Char) : Bool := c == '/' || c == '?' || c == '#'

/-! ## 3. Reading -/

/-- What has been seen in an authority. -/
structure AuthorityScan where
  colons : Nat
  opened : Bool
  closed : Bool
  percent : Bool
  lastIsAt : Bool

/-- Reads one more character of an authority. Colons in a user part and inside brackets do
not count, nor do percent signs there. -/
def AuthorityScan.step? (s : AuthorityScan) (c : Char) : Option AuthorityScan :=
  let s := { s with lastIsAt := false }
  if c == ':' then if 8 ≤ s.colons then none else some { s with colons := s.colons + 1 }
  else if c == '[' then if s.percent || s.opened then none else some { s with opened := true }
  else if c == ']' then
    if !s.opened || s.closed then none
    else some { s with closed := true, colons := 0, percent := false }
  else if c == '@' then some { s with colons := 0, percent := false, lastIsAt := true }
  else if c == '%' then some { s with percent := true }
  else if isAuthorityChar c then some s
  else none

/-- Whether a text without `/`, `?` and `#` is an authority. -/
def isAuthority (s : Text) : Bool :=
  match s.foldlM AuthorityScan.step? ⟨0, false, false, false, false⟩ with
  | some r => r.opened == r.closed && r.colons ≤ 1 && !r.lastIsAt && !r.percent
  | none => false

/-- The scheme of an address and what stands behind `://`. The schemes `http` and `https` are
known in any letter case and written in lower case. -/
def splitScheme? (s : Text) : Option (Option (Text × Text)) :=
  let scheme := s.takeWhile isSchemeChar
  match List.isPrefixOf? "://".toList (s.dropWhile isSchemeChar) with
  | none => some none
  | some rest =>
    let low := Text.lower scheme
    if low == "http".toList || low == "https".toList then some (some (low, rest))
    else if 64 < scheme.length then none
    else some (some (scheme, rest))

/-- The path and the query that a text writes; what follows a `#` is dropped. -/
def readResource? (scheme authority : Option Text) (s : Text) : Option Target :=
  let s := s.takeWhile (· != '#')
  let path := s.takeWhile (· != '?')
  if !path.all isPathChar then none
  else match s.drop path.length with
    | [] => some ⟨scheme, authority, path, none⟩
    | _ :: query =>
      if query.all isQueryChar then some ⟨scheme, authority, path, some query⟩ else none

/-- The longest target, in bytes. -/
def maxLength : Nat := 65534

/-- The target that a text writes. -/
def read? (s : Text) : Option Target :=
  if s.isEmpty || maxLength < (Text.utf8 s).length then none
  else if s == ['*'] then some ⟨none, none, s, none⟩
  else if s.head? == some '/' then readResource? none none s
  else match splitScheme? s with
    | none => none
    | some none => if isAuthority s then some ⟨none, some s, [], none⟩ else none
    | some (some (scheme, rest)) =>
      let authority := rest.takeWhile (!endsAuthority ·)
      if authority.isEmpty || !isAuthority authority then none
      else readResource? (some scheme) (some authority) (rest.drop authority.length)

end Target

end EdgeInclude
