import EdgeInclude.Url.Basic

/-!
# Reading addresses

* `Url.read` — the address that a text writes.
* `Url.join` — the address that a text writes when it stands in a document at another address.

Blanks and controls around an address and line breaks inside are ignored. Characters that a part
cannot hold are percent-encoded; steps of one or two dots are resolved.
-/

namespace EdgeInclude.Url

/-! ## 1. Characters -/

/-- Encoded in a fragment. -/
def inFragment (c : Char) : Bool := Host.isControl c || " \"<>".toList.contains c || c.toNat == 0x60

/-- Encoded in a step of a path. -/
def inStep (c : Char) : Bool := inFragment c || "#?\x7b\x7d".toList.contains c

/-- Encoded in a user part. -/
def inUser (c : Char) : Bool := inStep c || "/:;=@[\\]^|".toList.contains c

/-- Encoded in a query. -/
def inQuery (special : Bool) (c : Char) : Bool :=
  Host.isControl c || " \"#<>".toList.contains c || (special && c == '\'')

/-- The text without blanks and controls around it and without line breaks inside. -/
def clean (s : Text) : Text :=
  let s := s.dropWhile (·.toNat ≤ 0x20)
  let s := (s.reverse.dropWhile (·.toNat ≤ 0x20)).reverse
  s.filter fun c => c != '\t' && c != '\n' && c != '\r'

/-- Whether a character is a slash. A backslash is one where the scheme is special. -/
def isSlash (special : Bool) (c : Char) : Bool := c == '/' || (special && c == '\\')

/-- Whether a character ends an authority. -/
def endsAuthority (special : Bool) (c : Char) : Bool := isSlash special c || c == '?' || c == '#'

/-! ## 2. Paths -/

/-- Whether a step stays where it is. -/
def isDot (s : Text) : Bool :=
  let s := Text.lower s
  s == ".".toList || s == "%2e".toList

/-- Whether a step goes up. -/
def isDoubleDot (s : Text) : Bool :=
  let s := Text.lower s
  s == "..".toList || s == ".%2e".toList || s == "%2e.".toList || s == "%2e%2e".toList

/-- The pieces of a text between its slashes. -/
def steps (special : Bool) : Text → List Text
  | [] => [[]]
  | c :: s =>
    if isSlash special c then [] :: steps special s
    else match steps special s with
      | [] => [[c]]
      | p :: ps => (c :: p) :: ps

/-- The steps `done` followed by more steps; the last step leaves a slash behind when it goes up
or stays. -/
def walk (done : List Text) : List Text → List Text
  | [] => done
  | [s] =>
    if isDoubleDot s then done.dropLast ++ [[]]
    else if isDot s then done ++ [[]]
    else done ++ [Percent.encode inStep s]
  | s :: rest =>
    if isDoubleDot s then walk done.dropLast rest
    else if isDot s then walk done rest
    else walk (done ++ [Percent.encode inStep s]) rest

/-- Path, query and fragment of a text; the steps follow those of `done`. -/
structure Tail where
  path : List Text
  query : Option Text
  fragment : Option Text

/-- The query and the fragment at the front of a text. -/
def readQuery (special : Bool) (s : Text) : Option Text × Option Text :=
  let fragment := fun (s : Text) =>
    match s.dropWhile (· != '#') with
    | _ :: f => some (Percent.encode inFragment f)
    | [] => none
  match s with
  | '?' :: q => (some (Percent.encode (inQuery special) (q.takeWhile (· != '#'))), fragment q)
  | s => (none, fragment s)

/-- Whether a character belongs to a path. -/
def isPathChar (c : Char) : Bool := c != '?' && c != '#'

/-- A path that goes on from `done`, then a query and a fragment. The leading slash of the path is
already gone. -/
def readTail (special : Bool) (done : List Text) (s : Text) : Tail :=
  let (query, fragment) := readQuery special (s.dropWhile isPathChar)
  ⟨walk done (steps special (s.takeWhile isPathChar)), query, fragment⟩

/-- The tail behind an authority. Where the scheme is special there is always a path. -/
def readTailAfterHost (special : Bool) (s : Text) : Tail :=
  match s with
  | c :: rest =>
    if isSlash special c then readTail special [] rest
    else if special then readTail special [] s
    else if isPathChar c then readTail special [] s
    else ⟨[], (readQuery special s).1, (readQuery special s).2⟩
  | [] => ⟨if special then [[]] else [], none, none⟩

/-! ## 3. Authorities -/

/-- The user part in front of the last at sign of an authority. -/
def readUser (s : Text) : Text × Option Text :=
  let name := s.takeWhile (· != ':')
  let password := (s.drop name.length).drop 1
  (Percent.encode inUser name,
    if password.isEmpty then none else some (Percent.encode inUser password))

/-- The host at the front of a text, up to a colon outside brackets. -/
def splitHost (brackets : Bool) : Text → Text × Text
  | [] => ([], [])
  | c :: s =>
    if c == ':' && !brackets then ([], c :: s)
    else
      let (h, rest) := splitHost (if c == '[' then true else if c == ']' then false else brackets) s
      (c :: h, rest)

/-- The port behind a host, and what stands behind it. -/
def readPort (scheme : Text) (s : Text) : Except UrlFault (Option Nat × Text) :=
  let ds := s.takeWhile Char.isDigit
  let n := Host.numeral 10 ds
  let rest := s.drop ds.length
  let ended := match rest with
    | [] => true
    | c :: _ => c == '/' || c == '\\' || c == '?' || c == '#'
  if 65535 < n || !ended then .error .port
  else .ok (if ds.isEmpty || defaultPort scheme == some n then none else some n, rest)

/-- The host that a text writes, none if it is empty. -/
def readHost (special : Bool) (s : Text) : Except UrlFault (Option Host) :=
  if special then
    if s.isEmpty then .error .emptyHost else (Host.readSpecial s).map some
  else match Host.readOpaque s with
    | .ok (.name []) => .ok none
    | .ok h => .ok (some h)
    | .error e => .error e

/-- The authority at the front of a text, and what stands behind it. -/
def readAuthority (scheme : Text) (s : Text) : Except UrlFault (Authority × Text) := do
  let special := isSpecial scheme
  let front := s.takeWhile (!endsAuthority special ·)
  let rest := s.drop front.length
  let (user, place) := match Text.splitLast? '@' front with
    | some (u, p) => (some u, p)
    | none => (none, front)
  if user == some [] && place.isEmpty && !rest.isEmpty then .error .emptyHost
  let (name, password) := readUser (user.getD [])
  let (h, after) := splitHost false place
  let host ← readHost special h
  if host.isNone && after.head? == some ':' then .error .emptyHost
  let (port, rest) ← match after with
    | ':' :: p => readPort scheme (p ++ rest)
    | _ => .ok (none, after ++ rest)
  if host.isNone && (!name.isEmpty || password.isSome) then .error .emptyHost
  return (⟨name, password, host, port⟩, rest)

/-- An address from its scheme and what stands behind the two slashes. -/
def readAfterSlashes (scheme : Text) (s : Text) : Except UrlFault Url := do
  let (authority, rest) ← readAuthority scheme s
  let t := readTailAfterHost (isSpecial scheme) rest
  return ⟨scheme, some authority, .steps t.path, t.query, t.fragment⟩

/-! ## 4. Addresses of files -/

/-- The path of a file without empty steps at its front. -/
def trimSteps : List Text → List Text
  | [] :: s :: rest => trimSteps (s :: rest)
  | ps => ps

/-- The address of a file on a host. -/
def fileUrl (host : Option Host) (t : Tail) : Url :=
  ⟨"file".toList, some ⟨[], none, host, none⟩, .steps (trimSteps t.path), t.query, t.fragment⟩

/-- The steps of an address, none if its path has no structure. -/
def stepsOf (u : Url) : List Text :=
  match u.path with
  | .steps s => s
  | .free _ => []

/-- The address of a file; `base` is the address of another file. -/
def readFile (base : Option Url) (s : Text) : Except UrlFault Url :=
  match s with
  | a :: b :: rest =>
    if isSlash true a && isSlash true b then do
      let h := rest.takeWhile (!endsAuthority true ·)
      let after := rest.drop h.length
      let host ← if h.isEmpty then .ok none else (Host.readSpecial h).map some
      let host := if host == some (.name "localhost".toList) then none else host
      return fileUrl host (readTailAfterHost true after)
    else if isSlash true a then .ok (fileUrl (base.bind host?) (readTail true [] (b :: rest)))
    else .ok (relative base s)
  | [a] =>
    if isSlash true a then .ok (fileUrl (base.bind host?) (readTail true [] []))
    else .ok (relative base s)
  | [] => .ok (relative base s)
where
  /-- An address without a leading slash. -/
  relative (base : Option Url) (s : Text) : Url :=
    match base with
    | none => fileUrl none (readTail true [] s)
    | some u =>
      match s with
      | [] => { u with fragment := none }
      | '?' :: _ => { u with query := (readQuery true s).1, fragment := (readQuery true s).2 }
      | '#' :: _ => { u with fragment := (readQuery true s).2 }
      | _ => fileUrl u.host? (readTail true (stepsOf u).dropLast s)

/-! ## 5. Addresses -/

/-- An address relative to another one. -/
def readRelative (base : Url) (s : Text) : Except UrlFault Url :=
  let special := isSpecial base.scheme
  match s with
  | [] => .ok { base with fragment := none }
  | '?' :: _ =>
    .ok { base with query := (readQuery special s).1, fragment := (readQuery special s).2 }
  | '#' :: _ => .ok { base with fragment := (readQuery special s).2 }
  | c :: rest =>
    if isSlash true c then
      if rest.head?.any (isSlash true) then
        -- two slashes are an authority, and so are more, unless the first two are plain
        let after := if s.take 2 == "//".toList then s.drop 2 else s.dropWhile (isSlash true)
        readAfterSlashes base.scheme after
      else
        let t := readTail special [] rest
        .ok { base with path := .steps t.path, query := t.query, fragment := t.fragment }
    else
      let t := readTail special (stepsOf base).dropLast s
      .ok { base with path := .steps t.path, query := t.query, fragment := t.fragment }

/-- A character of a scheme behind its first one. -/
def isSchemeChar (c : Char) : Bool := c.isAlphanum || c == '+' || c == '-' || c == '.'

/-- The scheme in front of the first colon, in lower case, and what stands behind it. -/
def splitScheme? (s : Text) : Option (Text × Text) :=
  if s.head?.any Char.isAlpha then
    match s.dropWhile isSchemeChar with
    | ':' :: rest => some (Text.lower (s.takeWhile isSchemeChar), rest)
    | _ => none
  else none

/-- An address whose path has no structure. -/
def readFree (scheme s : Text) : Url :=
  let (query, fragment) := readQuery false (s.dropWhile isPathChar)
  ⟨scheme, none, .free (Percent.encode Host.isControl (s.takeWhile isPathChar)), query, fragment⟩

/-- An address with a scheme. -/
def readWithScheme (base : Option Url) (scheme s : Text) : Except UrlFault Url :=
  if isFile scheme then readFile (base.filter fun u => isFile u.scheme) s
  else if isSpecial scheme then
    match base.filter fun u => u.scheme == scheme && (s.takeWhile (isSlash true)).length < 2 with
    | some u => readRelative u s
    | none => readAfterSlashes scheme (s.dropWhile (isSlash true))
  else match s with
    | '/' :: '/' :: rest => readAfterSlashes scheme rest
    | '/' :: rest =>
      let t := readTail false [] rest
      .ok ⟨scheme, none, .steps t.path, t.query, t.fragment⟩
    | s => .ok (readFree scheme s)

/-- Whether nothing can be relative to an address, its fragment apart. -/
def isFree (u : Url) : Bool :=
  match u.path with
  | .free _ => true
  | .steps _ => false

/-- The address that a text writes, given the address that it stands at. -/
def readFrom (base : Option Url) (s : Text) : Except UrlFault Url :=
  let s := clean s
  match splitScheme? s with
  | some (scheme, rest) => readWithScheme base scheme rest
  | none =>
    match base with
    | none => .error .noBase
    | some u =>
      if s.head? == some '#' then .ok { u with fragment := (readQuery false s).2 }
      else if u.isFree then .error .opaqueBase
      else if isFile u.scheme then readFile (some u) s
      else readRelative u s

/-- The address that a text writes. -/
def read (s : Text) : Except UrlFault Url := readFrom none s

/-- The address that a text writes when it stands in a document at address `u`. -/
def join (u : Url) (s : Text) : Except UrlFault Url := readFrom (some u) s

/-- The fields of the query. -/
def queryFields (u : Url) : List (Text × Text) :=
  match u.query with
  | some q => Form.fields (Text.utf8 q)
  | none => []

end EdgeInclude.Url
