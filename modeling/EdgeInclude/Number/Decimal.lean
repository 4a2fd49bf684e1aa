import EdgeInclude.Text.Basic

/-!
# Decimal numbers

* `Decimal.readNat?` — digits, with an optional plus sign, up to a largest value.
* `Decimal.readPoint?` — digits with at most one point among them.
* `Decimal.roundDiv` — a quotient rounded to the nearest whole number; a half goes to
  the even neighbour.
* `Decimal.fixed` — a binary floating-point number with a fixed number of places.
* `Decimal.shortest` — the fewest digits that read back as the same number, never
  with an exponent.
-/

namespace EdgeInclude.Decimal

/-! ## 1. Reading -/

/-- The number that a list of digits denotes. -/
def ofDigits (ds : Text) : Nat := ds.foldl (fun n d => n * 10 + (d.toNat - '0'.toNat)) 0

/-- Digits, with an optional plus sign before them, of a number not above `bound`. -/
def readNat? (bound : Nat) (s : Text) : Option Nat :=
  let ds := match s with
    | '+' :: ds => ds
    | ds => ds
  if ds.isEmpty || !ds.all Char.isDigit then none
  else if ofDigits ds ≤ bound then some (ofDigits ds) else none

/-- The largest number of 64 bits. -/
def maxWord : Nat := (1 <<< 64) - 1

/-- Digits with at most one point among them: all digits, and how many stand after
the point. -/
def readPoint? (s : Text) : Option (Nat × Nat) :=
  let whole := s.takeWhile Char.isDigit
  match s.dropWhile Char.isDigit with
  | [] => if whole.isEmpty then none else some (ofDigits whole, 0)
  | '.' :: part =>
    if part.all Char.isDigit && !(whole.isEmpty && part.isEmpty) then
      some (ofDigits (whole ++ part), part.length)
    else none
  | _ => none

/-! ## 2. Rounding -/

/-- `num / den` rounded to the nearest whole number; a half goes to the even neighbour. -/
def roundDiv (num den : Nat) : Nat :=
  let q := num / den
  let r := num % den
  if 2 * r < den then q
  else if 2 * r > den then q + 1
  else if q % 2 == 0 then q else q + 1

/-! ## 3. Writing floating-point numbers -/

/-- A finite number as `mantissa * 2 ^ exponent`, without its sign. -/
structure Binary where
  mantissa : Nat
  exponent : Int
  deriving DecidableEq, Repr

/-- The magnitude of a finite floating-point number. -/
def Binary.ofFloat (x : Float) : Binary :=
  let bits := x.toBits.toNat % (1 <<< 63)
  let e : Nat := bits / (1 <<< 52)
  let m : Nat := bits % (1 <<< 52)
  if e == 0 then ⟨m, -1074⟩ else ⟨m + (1 <<< 52), (e : Int) - 1075⟩

/-- Numerator and denominator of `b * 10 ^ places`. -/
def Binary.scaled (b : Binary) (places : Int) : Nat × Nat :=
  let num := (b.mantissa <<< b.exponent.toNat) * Nat.pow 10 places.toNat
  let den := (1 <<< (-b.exponent).toNat) * Nat.pow 10 (-places).toNat
  (num, den)

/-- A whole number of units of the last of `places` places. -/
def placed (n places : Nat) : String :=
  let ds := List.leftpad (places + 1) '0' (Nat.toDigits 10 n)
  let whole := ds.take (ds.length - places)
  if places == 0 then String.ofList whole
  else String.ofList (whole ++ '.' :: ds.drop (ds.length - places))

/-- What stands for a number that is not finite, and the sign of one that is. -/
def special? (x : Float) : Option String :=
  if x.isNaN then some "NaN" else if x.isInf then some (if x < 0 then "-inf" else "inf") else none

/-- The sign before a negative number, negative zero included. -/
def sign (x : Float) : String := if x.toBits.toNat < (1 <<< 63) then "" else "-"

/-- A number with a fixed number of places; a half goes to the even neighbour. -/
def fixed (places : Nat) (x : Float) : String :=
  match special? x with
  | some s => s
  | none =>
    let (num, den) := (Binary.ofFloat x).scaled places
    sign x ++ placed (roundDiv num den) places

/-- The decimal points of a magnitude `n * 10 ^ e` that lie in the interval of
numbers rounding to `b`; its ends count when the mantissa is even. -/
def readsBack (b : Binary) (n : Nat) (e : Int) : Bool :=
  -- everything is compared after multiplication by `4 * 10 ^ (-e)`
  let (num, den) := b.scaled (-e)
  let up := Binary.scaled ⟨1, b.exponent⟩ (-e)
  let down :=
    if b.mantissa == (1 <<< 52) && b.exponent > -1074 then Binary.scaled ⟨1, b.exponent - 1⟩ (-e)
    else up
  let even := b.mantissa % 2 == 0
  -- 2·n against 2·b ± one unit in the last place of `b`
  let high := (2 * num * up.2 + up.1 * den, den * up.2)
  let low := (2 * num * down.2 - down.1 * den, den * down.2)
  let belowHigh := if even then 2 * n * high.2 ≤ high.1 else 2 * n * high.2 < high.1
  let aboveLow := if even then low.1 ≤ 2 * n * low.2 else low.1 < 2 * n * low.2
  belowHigh && aboveLow

/-- How many decimal digits a number has. -/
def digitCount (n : Nat) : Nat := (Nat.toDigits 10 n).length

/-- The decimal exponent `e` with `10 ^ e ≤ b < 10 ^ (e + 1)`, for a positive `b`. -/
def Binary.decimalExponent (b : Binary) : Int :=
  let (num, den) := b.scaled 0
  if den ≤ num then (digitCount (num / den) : Int) - 1
  else
    -- `num * 10 ^ k` first reaches `den` at the exponent `-k`
    let guess := digitCount (den / num)
    if den ≤ num * Nat.pow 10 (guess - 1) then -((guess : Int) - 1) else -(guess : Int)

/-- The nearest point with `digits` digits that reads back, if one does. -/
def candidate? (b : Binary) (digits : Nat) : Option (Nat × Int) :=
  let e := b.decimalExponent - (digits : Int) + 1
  let (num, den) := b.scaled (-e)
  let near := roundDiv num den
  let other := if near * den ≤ num then near + 1 else near - 1
  if readsBack b near e then some (near, e)
  else if readsBack b other e then some (other, e)
  else none

/-- The fewest digits that read back, and their exponent. -/
def shortestDigits (b : Binary) : Nat × Int :=
  ((List.range 17).findSome? fun k => candidate? b (k + 1)).getD (b.mantissa, 0)

/-- The fewest digits that read back as the same number, never with an exponent. -/
def shortest (x : Float) : String :=
  match special? x with
  | some s => s
  | none =>
    let b := Binary.ofFloat x
    if b.mantissa == 0 then sign x ++ "0"
    else
      let (n, e) := shortestDigits b
      if 0 ≤ e then sign x ++ toString (n * Nat.pow 10 e.toNat)
      else
        let text := (placed n (-e).toNat).toList
        -- zeros at the end of the places say nothing
        let text := (text.reverse.dropWhile (· == '0')).reverse
        let text := match text.getLast? with
          | some '.' => text.dropLast
          | _ => text
        sign x ++ String.ofList text

end EdgeInclude.Decimal
