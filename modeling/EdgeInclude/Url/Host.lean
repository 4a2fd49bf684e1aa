import EdgeInclude.Http.Percent
import EdgeInclude.Text.Search
import EdgeInclude.Url.HostName
import EdgeInclude.Url.Punycode

/-!
# Hosts of addresses

* `Host` — a name, or an address of 32 or 128 bits.
* `Host.readSpecial` — the host of a scheme that is fetched over the network: percent-encoding is
  undone, and a name that ends in a number is an address.
* `Host.readOpaque` — the host of any other scheme, kept as it is.
* `UrlFault` — why an address cannot be read.
-/

namespace EdgeInclude

/-- Why an address cannot be read. -/
inductive UrlFault where
  | emptyHost
  | domainName
  | port
  | ipv4
  | ipv6
  | domainCharacter
  | noBase
  | opaqueBase
  deriving DecidableEq, Repr

/-- The wording of a fault. -/
def UrlFault.message : UrlFault → String
  | emptyHost => "empty host"
  | domainName => "invalid international domain name"
  | port => "invalid port number"
  | ipv4 => "invalid IPv4 address"
  | ipv6 => "invalid IPv6 address"
  | domainCharacter => "invalid domain character"
  | noBase => "relative URL without a base"
  | opaqueBase => "relative URL with a cannot-be-a-base base"

/-- A host: a name, four bytes, or eight words of 16 bits. -/
inductive Host where
  | name (s : Text)
  | four (address : Nat)
  | six (pieces : List Nat)
  deriving DecidableEq, Repr

namespace Host

/-! ## 1. Addresses of 32 bits -/

/-- The value of a number in base `base`. -/
def numeral (base : Nat) (ds : Text) : Nat :=
  ds.foldl (fun n c => base * n + ((Percent.digit? (UInt8.ofNat c.toNat)).getD 0).toNat) 0

/-- Whether a character is a digit of base sixteen. -/
def isHex (c : Char) : Bool := c.toNat < 0x80 && (Percent.digit? (UInt8.ofNat c.toNat)).isSome

/-- A number of an address: in base ten, in base sixteen behind `0x`, in base eight behind `0`. -/
def number? (s : Text) : Option Nat :=
  match s with
  | [] => none
  | '0' :: 'x' :: ds | '0' :: 'X' :: ds => if ds.all isHex then some (numeral 16 ds) else none
  | '0' :: d :: ds =>
    if (d :: ds).all fun c => '0' ≤ c && c ≤ '7' then some (numeral 8 (d :: ds)) else none
  | ds => if ds.all Char.isDigit then some (numeral 10 ds) else none

/-- The parts of a name between its dots, without an empty last one. -/
def parts (s : Text) : List Text :=
  let ps := Text.pieces '.' s
  if ps.getLast? == some [] && ps.length > 1 then ps.dropLast else ps

/-- Whether a name ends in a number, and so has to be an address. -/
def endsInNumber (s : Text) : Bool :=
  match (parts s).getLast? with
  | some last => !last.isEmpty && (last.all Char.isDigit || (number? last).isSome)
  | none => false

/-- The address that numbers make: the last one fills all bytes that are left. -/
def fourOf (ns : List Nat) : Option Nat :=
  match ns.reverse with
  | [] => none
  | last :: before =>
    let k := before.length
    if k ≤ 3 && last < (1 <<< (8 * (4 - k))) && before.all (· < 256) then
      some ((before.reverse.foldl (fun a n => 256 * a + n) 0) <<< (8 * (4 - k)) + last)
    else none

/-- The address that a name writes. -/
def readFour (s : Text) : Except UrlFault Host :=
  match (parts s).mapM number? with
  | some ns =>
    match fourOf ns with
    | some a => .ok (.four a)
    | none => .error .ipv4
  | none => .error .ipv4

/-! ## 2. Addresses of 128 bits -/

/-- A piece: one to four digits of base sixteen. -/
def piece? (s : Text) : Option Nat :=
  if !s.isEmpty && s.length ≤ 4 && s.all isHex then some (numeral 16 s) else none

/-- Four numbers of a byte each, without leading zeros, as two pieces. -/
def dotted? (s : Text) : Option (List Nat) := do
  let byte? (p : Text) : Option Nat :=
    if p.isEmpty || p.length > 3 || !p.all Char.isDigit || (p.head? == some '0' && p.length > 1)
      || 255 < numeral 10 p then none
    else some (numeral 10 p)
  match ← (Text.pieces '.' s).mapM byte? with
  | [a, b, c, d] => some [256 * a + b, 256 * c + d]
  | _ => none

/-- Pieces between colons; the last one may be a dotted address when `last` holds. -/
def pieces? (last : Bool) (s : Text) : Option (List Nat) :=
  if s.isEmpty then some []
  else
    let ps := Text.pieces ':' s
    match ps.getLast? with
    | some p =>
      if last && p.contains '.' then do
        return (← ps.dropLast.mapM piece?) ++ (← dotted? p)
      else ps.mapM piece?
    | none => some []

/-- The address that a text writes. A double colon stands for at least one zero piece. -/
def readSix (s : Text) : Except UrlFault Host :=
  let r : Option (List Nat) :=
    match splitFirst? "::".toList s with
    | none => do
      let ps ← pieces? true s
      if ps.length == 8 then some ps else none
    | some (a, b) => do
      let l ← pieces? false a
      let r ← pieces? true b
      if l.length + r.length ≤ 7 then
        some (l ++ List.replicate (8 - l.length - r.length) 0 ++ r)
      else none
  match r with
  | some ps => .ok (.six ps)
  | none => .error .ipv6

/-! ## 3. Reading -/

/-- A character that a host cannot have. -/
def isForbidden (c : Char) : Bool := "\x00\t\n\r #/:<>?@[\\]^|".toList.contains c

/-- A character that a host name cannot have. -/
def isForbiddenInName (c : Char) : Bool :=
  isForbidden c || c.toNat < 0x20 || c == '%' || c.toNat == 0x7F

/-- The text between brackets. -/
def unbracket? : Text → Option Text
  | '[' :: s => if s.getLast? == some ']' then some s.dropLast else none
  | _ => none

/-- A character that is percent-encoded wherever it stands. -/
def isControl (c : Char) : Bool := c.toNat < 0x20 || c.toNat == 0x7F

/-- The host of a scheme that is not fetched over the network. -/
def readOpaque (s : Text) : Except UrlFault Host :=
  if s.head? == some '[' then
    match unbracket? s with
    | some t => readSix t
    | none => .error .ipv6
  else if s.any isForbidden then .error .domainCharacter
  else .ok (.name (Percent.encode isControl s))

/-- The host of a scheme that is fetched over the network. -/
def readSpecial (s : Text) : Except UrlFault Host :=
  if s.head? == some '[' then
    match unbracket? s with
    | some t => readSix t
    | none => .error .ipv6
  else
    let decoded := Utf8.lossy (Percent.decode (Text.utf8 s))
    let labels := (Text.pieces '.' (HostName.simplify decoded)).map Punycode.label
    let domain := (labels.intersperse ['.']).flatten
    if domain.any isForbiddenInName || decoded.contains '\uFFFD' then .error .domainName
    else if domain.isEmpty then .error .emptyHost
    else if endsInNumber domain then readFour domain
    else .ok (.name domain)

/-! ## 4. Writing -/

/-- The first longest run of zeros, with its length. -/
def longestZeros (ps : List Nat) : Nat × Nat :=
  (List.range ps.length).foldl (fun (best : Nat × Nat) i =>
    let n := ((ps.drop i).takeWhile (· == 0)).length
    if best.2 < n then (i, n) else best) (0, 0)

/-- Pieces with colons between them. -/
def joined (ps : List Nat) : Text := ((ps.map (Nat.toDigits 16)).intersperse [':']).flatten

/-- A host as a text. -/
def text : Host → Text
  | name s => s
  | four a =>
    ([a >>> 24, (a >>> 16) % 256, (a >>> 8) % 256, a % 256].map (Nat.toDigits 10)).intersperse ['.']
      |>.flatten
  | six ps =>
    let (i, n) := longestZeros ps
    '[' :: (if n < 2 then joined ps
      else joined (ps.take i) ++ "::".toList ++ joined (ps.drop (i + n))) ++ [']']

end Host

end EdgeInclude
