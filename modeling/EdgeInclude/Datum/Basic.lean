import EdgeInclude.Text.Basic

/-!
# Structured values

The values that configuration documents and messages to programs consist of.

* `Datum` — a value.
* `Datum.field?` — the value of a name in a map; the last one counts.
* `Datum.text?`, `Datum.bool?`, `Datum.nat?` — scalars as a reader takes them.
-/

namespace EdgeInclude

/-- A structured value. The names of a map stand in the order of the document; a number that is
not whole is known by its text only. A plain scalar is what its reader takes it for. -/
inductive Datum where
  | null
  | bool (b : Bool)
  | int (n : Int)
  | real (s : Text)
  | text (s : Text)
  | plain (s : Text)
  | list (items : List Datum)
  | map (fields : List (Text × Datum))
  deriving Repr, Inhabited

namespace Datum

/-! ## 1. Maps -/

/-- The value of a name in a map. -/
def field? (fields : List (Text × Datum)) (name : Text) : Option Datum :=
  (fields.reverse.find? (·.1 == name)).map (·.2)

/-! ## 2. Scalars -/

/-- The plain scalars that stand for nothing. -/
def isNullWord (s : Text) : Bool :=
  s.isEmpty || ["~", "null", "Null", "NULL"].any (·.toList == s)

/-- Nothing, or a plain scalar that stands for it. -/
def isNull : Datum → Bool
  | null => true
  | plain s => isNullWord s
  | _ => false

/-- A text; a plain scalar is taken as it is written. -/
def text? : Datum → Option Text
  | text s | plain s => some s
  | _ => none

/-- A truth value. -/
def bool? : Datum → Option Bool
  | bool b => some b
  | plain s =>
    if ["true", "True", "TRUE"].any (·.toList == s) then some true
    else if ["false", "False", "FALSE"].any (·.toList == s) then some false
    else none
  | _ => none

/-- The value of a digit in base sixteen or less. -/
def digit? (base : Nat) (c : Char) : Option Nat :=
  let v :=
    if c.isDigit then c.toNat - 0x30
    else if 'a' ≤ c && c ≤ 'f' then c.toNat - 0x57
    else if 'A' ≤ c && c ≤ 'F' then c.toNat - 0x37
    else base
  if v < base then some v else none

/-- The number that at least one digit of a base denotes. -/
def numeral? (base : Nat) (ds : Text) : Option Nat :=
  if ds.isEmpty then none
  else ds.foldlM (fun n c => (digit? base c).map (base * n + ·)) 0

/-- Digits in base ten without a needless zero in front. -/
def decimal? (ds : Text) : Option Nat :=
  if ds.head? == some '0' && 1 < ds.length then none else numeral? 10 ds

/-- A number as plain scalars write it: in base ten, or behind a mark for another base. -/
def plainNat? (s : Text) : Option Nat :=
  let unsigned := match s with
    | '+' :: r => r
    | r => r
  match unsigned with
  | '0' :: 'x' :: ds => numeral? 16 ds
  | '0' :: 'o' :: ds => numeral? 8 ds
  | '0' :: 'b' :: ds => numeral? 2 ds
  | ds => decimal? ds

/-- A natural number not above a bound. -/
def nat? (bound : Nat) : Datum → Option Nat
  | int (.ofNat n) => if n ≤ bound then some n else none
  | plain s => (plainNat? s).filter (· ≤ bound)
  | _ => none

/-- An empty plain scalar: a list or a map without anything in it. -/
def isBlank : Datum → Bool
  | plain s => s.isEmpty
  | _ => false

end Datum

end EdgeInclude
