import EdgeInclude.Text.Basic

/-!
# Tokens of YAML documents

A configuration document is YAML: block and flow collections, plain and quoted scalars, comments.
Directives, aliases, tags and complex keys are not taken.

* `Yaml.Token` — marks and scalars, each with its place.
* `Yaml.tokens?` — the tokens of a document, unless its text is ill-formed.
-/

namespace EdgeInclude.Yaml

/-! ## 1. Tokens -/

/-- A mark or a scalar. -/
inductive Token where
  | plain (s : Text)
  | quoted (s : Text)
  | dash
  | colon
  | comma
  | openList
  | closeList
  | openMap
  | closeMap
  | documentStart
  | documentEnd
  deriving DecidableEq, Repr

/-- A line and a column, both counted from zero. -/
structure Place where
  line : Nat
  column : Nat
  deriving DecidableEq, Repr

/-- The place behind a text. -/
def Place.after (p : Place) (s : Text) : Place :=
  s.foldl (fun p c => if c == '\n' then ⟨p.line + 1, 0⟩ else ⟨p.line, p.column + 1⟩) p

/-- A token and where it begins. -/
structure Placed where
  token : Token
  place : Place
  deriving DecidableEq, Repr

/-! ## 2. Characters -/

/-- A blank within a line. -/
def isSpace (c : Char) : Bool := c == ' ' || c == '\t'

/-- A blank or a line break. -/
def isGap (c : Char) : Bool := isSpace c || c == '\n'

/-- Whether a text begins with a gap or is at its end. -/
def atGap : Text → Bool
  | [] => true
  | c :: _ => isGap c

/-- The marks of flow collections. -/
def isFlowMark (c : Char) : Bool := ",[]\x7b\x7d".toList.contains c

/-- The characters that no plain scalar begins with. -/
def isIndicator (c : Char) : Bool := isFlowMark c || "#&*!|>'\"%@".toList.contains c || c == '\x60'

/-! ## 3. Scalars -/

/-- The characters of a plain scalar and what follows them. `prev` is the character before. -/
def plainSpan (flow : Bool) (prev : Char) : Text → Text × Text
  | [] => ([], [])
  | c :: rest =>
    let ends :=
      c == '\n' || (c == '#' && isSpace prev) ||
      (c == ':' && (atGap rest || (flow && (rest.head?.map isFlowMark).getD false))) ||
      (flow && isFlowMark c)
    if ends then ([], c :: rest)
    else
      let (s, r) := plainSpan flow c rest
      (c :: s, r)

/-- Whether a plain scalar begins here. -/
def beginsPlain : Text → Bool
  | [] => false
  | c :: rest =>
    if c == '-' || c == '?' || c == ':' then !atGap rest else !isIndicator c && !isGap c

/-- A text without the blanks at its end. -/
def trimSpaces (s : Text) : Text := (s.reverse.dropWhile isSpace).reverse

/-- A line break in a quoted scalar, with the blanks around it: one break is a blank, more are one
break less. `read` is the text before, in reverse. -/
def fold (read rest : Text) : Text × Text :=
  let gap := rest.takeWhile isGap
  let breaks := gap.countP (· == '\n')
  let fill := if breaks ≤ 1 then [' '] else List.replicate (breaks - 1) '\n'
  (fill ++ read.dropWhile isSpace, rest.dropWhile isGap)

/-- The scalar up to a single quote, and what follows it. Two quotes stand for one. -/
def singleQuoted : (fuel : Nat) → (read : Text) → Text → Option (Text × Text)
  | 0, _, _ | _, _, [] => none
  | n + 1, read, '\'' :: '\'' :: rest => singleQuoted n ('\'' :: read) rest
  | _ + 1, read, '\'' :: rest => some (read.reverse, rest)
  | n + 1, read, c :: rest =>
    if c == '\n' then
      let (read, rest) := fold read (c :: rest)
      singleQuoted n read rest
    else singleQuoted n (c :: read) rest

/-- The characters that a letter behind a backslash stands for. -/
def escapes : List (Char × Char) :=
  [('0', '\x00'), ('a', '\x07'), ('b', '\x08'), ('t', '\t'), ('\t', '\t'), ('n', '\n'),
    ('v', '\x0b'), ('f', '\x0c'), ('r', '\r'), ('e', '\x1b'), (' ', ' '), ('"', '"'), ('/', '/'),
    ('\\', '\\'), ('N', '\x85'), ('_', '\xa0'), ('L', '\u2028'), ('P', '\u2029')]

/-- How many digits of base sixteen follow a letter behind a backslash. -/
def digitsBehind? (c : Char) : Option Nat :=
  if c == 'x' then some 2 else if c == 'u' then some 4 else if c == 'U' then some 8 else none

/-- The value of a digit of base sixteen. -/
def hexValue? (c : Char) : Option Nat :=
  if c.isDigit then some (c.toNat - 0x30)
  else if 'a' ≤ c && c ≤ 'f' then some (c.toNat - 0x57)
  else if 'A' ≤ c && c ≤ 'F' then some (c.toNat - 0x37)
  else none

/-- The character of a code point, if there is one. -/
def charOf? (n : Nat) : Option Char := if n.isValidChar then some (Char.ofNat n) else none

/-- The character that `count` digits stand for. -/
def coded? (count : Nat) (s : Text) : Option Char := do
  if s.length < count then none
  let n ← (s.take count).foldlM (fun n c => (hexValue? c).map (16 * n + ·)) 0
  charOf? n

/-- The scalar up to a double quote, and what follows it. -/
def doubleQuoted : (fuel : Nat) → (read : Text) → Text → Option (Text × Text)
  | 0, _, _ | _, _, [] => none
  | _ + 1, read, '"' :: rest => some (read.reverse, rest)
  | n + 1, read, '\\' :: '\n' :: rest => doubleQuoted n read (rest.dropWhile isSpace)
  | n + 1, read, '\\' :: c :: rest =>
    match digitsBehind? c with
    | some count => do
      let d ← coded? count rest
      doubleQuoted n (d :: read) (rest.drop count)
    | none => do
      let (_, d) ← escapes.find? (·.1 == c)
      doubleQuoted n (d :: read) rest
  | n + 1, read, c :: rest =>
    if c == '\n' then
      let (read, rest) := fold read (c :: rest)
      doubleQuoted n read rest
    else doubleQuoted n (c :: read) rest

/-! ## 4. Block scalars -/

/-- A block scalar's header: whether breaks are folded, and how breaks at its end are kept. -/
structure BlockStyle where
  folded : Bool
  /-- A minus sign keeps no break, a plus sign all of them. -/
  chomp : Option Char

/-- The header behind the mark of a block scalar. -/
def blockStyle? (folded : Bool) (header : Text) : Option BlockStyle :=
  match trimSpaces (header.takeWhile (· != '#')) with
  | [] => some ⟨folded, none⟩
  | [c] => if c == '-' || c == '+' then some ⟨folded, some c⟩ else none
  | _ => none

/-- The number of blanks in front of a line. -/
def indentOf (line : Text) : Nat := (line.takeWhile (· == ' ')).length

/-- Whether a line has nothing but blanks. -/
def isBlankLine (line : Text) : Bool := line.all (· == ' ')

/-- The lines of a block scalar, without their indentation, in a text of lines. -/
def blockLines (parent : Nat) (lines : List Text) : List Text :=
  match lines.find? (!isBlankLine ·) with
  | none => []
  | some first =>
    let indent := indentOf first
    if indent ≤ parent then []
    else (lines.takeWhile fun l => isBlankLine l || indent ≤ indentOf l).map (·.drop indent)

/-- Lines joined: a break between two lines that have text is a blank when breaks are folded. -/
def joinLines (folded : Bool) : List Text → Text
  | [] => []
  | [l] => l
  | l :: m :: rest =>
    let mark := if folded && !l.isEmpty && !m.isEmpty then ' ' else '\n'
    if folded && !l.isEmpty && m.isEmpty then l ++ joinLines folded (m :: rest)
    else l ++ mark :: joinLines folded (m :: rest)

/-- The text of a block scalar. -/
def blockText (style : BlockStyle) (lines : List Text) : Text :=
  let body := (lines.reverse.dropWhile List.isEmpty).reverse
  let tail := lines.length - body.length
  let text := joinLines style.folded body
  match style.chomp with
  | some '-' => text
  | some '+' => text ++ List.replicate (if body.isEmpty then tail else tail + 1) '\n'
  | _ => if body.isEmpty then [] else text ++ ['\n']

/-! ## 5. Documents -/

/-- How far a text has been read. -/
structure Reading where
  place : Place
  /-- How many flow collections are open. -/
  depth : Nat
  /-- Whether only blanks stand before on the line. -/
  fresh : Bool
  /-- The indentation of the line. -/
  indent : Nat
  deriving DecidableEq, Repr

/-- What comes next in a text. -/
inductive Next where
  | token (t : Token)
  | gap
  | refused
  deriving DecidableEq, Repr

/-- A mark of one character. -/
def mark? (flow : Bool) (c : Char) (rest : Text) : Option Token :=
  if c == '-' && atGap rest then some .dash
  else if c == ':' && (flow || atGap rest) then some .colon
  else if c == ',' && flow then some .comma
  else if c == '[' then some .openList
  else if c == ']' && flow then some .closeList
  else if c == '\x7b' then some .openMap
  else if c == '\x7d' && flow then some .closeMap
  else none

/-- Three characters of a document mark at the beginning of a line. -/
def documentMark? (r : Reading) (s : Text) : Option Token :=
  if r.place.column != 0 || !atGap (s.drop 3) then none
  else if s.take 3 == "---".toList then some .documentStart
  else if s.take 3 == "...".toList then some .documentEnd
  else none

/-- The reading behind a text. -/
def Reading.after (r : Reading) (s : Text) : Reading :=
  let place := r.place.after s
  let fresh := if place.line == r.place.line then r.fresh && s.all (· == ' ') else place.column == 0
  { r with place := place, fresh := fresh, indent := if fresh then place.column else r.indent }

/-- How many flow collections are open behind a token. -/
def depthAfter (depth : Nat) : Token → Nat
  | .openList | .openMap => depth + 1
  | .closeList | .closeMap => depth - 1
  | _ => depth

/-- The next token of a text and the text behind it; no token for a gap. -/
def next? (r : Reading) (s : Text) : Option (Option Token × Text) :=
  let flow := r.depth != 0
  match documentMark? r s, s with
  | some t, _ => some (some t, s.drop 3)
  | none, [] => none
  | none, c :: rest =>
    if c == '\n' || c == ' ' then some (none, rest)
    else if c == '\t' then if r.fresh && !flow then none else some (none, rest)
    else if c == '#' then some (none, rest.dropWhile (· != '\n'))
    else if (c == '|' || c == '>') && !flow then do
      let style ← blockStyle? (c == '>') (rest.takeWhile (· != '\n'))
      let body := (rest.dropWhile (· != '\n')).drop 1
      let lines := blockLines (r.indent) (Text.pieces '\n' body)
      let taken := (lines.length.fold (fun _ _ rest => (rest.dropWhile (· != '\n')).drop 1) body)
      return (some (.quoted (blockText style lines)), '\n' :: taken)
    else if c == '\'' then
      (singleQuoted (s.length + 1) [] rest).map fun (t, rest) => (some (.quoted t), rest)
    else if c == '"' then
      (doubleQuoted (s.length + 1) [] rest).map fun (t, rest) => (some (.quoted t), rest)
    else match mark? flow c rest with
      | some t => some (some t, rest)
      | none =>
        if beginsPlain s then
          let (t, rest) := plainSpan flow ' ' s
          some (some (.plain (trimSpaces t)), rest)
        else none

/-- The tokens of the rest of a text. -/
def tokensFrom : (fuel : Nat) → Reading → Text → Option (List Placed)
  | _, _, [] => some []
  | 0, _, _ => none
  | n + 1, r, s => do
    let (t, rest) ← next? r s
    let r' := r.after (s.take (s.length - rest.length))
    match t with
    | none => tokensFrom n r' rest
    | some t =>
      let more ← tokensFrom n { r' with depth := depthAfter r.depth t } rest
      return ⟨t, r.place⟩ :: more

/-- A text with line feeds only. -/
def unifyBreaks : Text → Text
  | '\r' :: '\n' :: rest => '\n' :: unifyBreaks rest
  | '\r' :: rest => '\n' :: unifyBreaks rest
  | c :: rest => c :: unifyBreaks rest
  | [] => []

/-- The tokens of a document. -/
def tokens? (s : Text) : Option (List Placed) :=
  tokensFrom (2 * s.length + 1) ⟨⟨0, 0⟩, 0, true, 0⟩ (unifyBreaks s)

end EdgeInclude.Yaml
