import EdgeInclude.Text.Utf8

/-!
# Percent-encoding and form data

* `Percent.decode` — the bytes that a percent-encoded byte string stands for. A
  percent sign without two hexadecimal digits behind it stands for itself.
* `Percent.encode` — bytes of a set, and all bytes outside ASCII, as a percent sign and
  two digits in upper case.
* `Form.fields` — the names and values of form data, in order.
-/

namespace EdgeInclude

namespace Percent

/-! ## 1. Hexadecimal digits -/

/-- The value of a hexadecimal digit. -/
def digit? (b : UInt8) : Option UInt8 :=
  if 0x30 ≤ b && b ≤ 0x39 then some (b - 0x30)
  else if 0x41 ≤ b && b ≤ 0x46 then some (b - 0x37)
  else if 0x61 ≤ b && b ≤ 0x66 then some (b - 0x57)
  else none

/-- The hexadecimal digit of a value below 16, in upper case. -/
def digit (n : UInt8) : Char := Char.ofNat (if n < 10 then 0x30 + n.toNat else 0x37 + n.toNat)

/-! ## 2. Decoding and encoding -/

/-- The bytes that a percent-encoded byte string stands for. -/
def decode : Bytes → Bytes
  | 0x25 :: a :: b :: rest =>
    match digit? a, digit? b with
    | some x, some y => (16 * x + y) :: decode rest
    | _, _ => 0x25 :: decode (a :: b :: rest)
  | c :: rest => c :: decode rest
  | [] => []

/-- One byte as a percent sign and two digits. -/
def encodeByte (b : UInt8) : Text := ['%', digit (b / 16), digit (b % 16)]

/-- A text in which the bytes of every character that is not ASCII or satisfies `p` are
percent-encoded. -/
def encode (p : Char → Bool) (s : Text) : Text :=
  s.flatMap fun c =>
    if 0x80 ≤ c.toNat || p c then (Text.utf8 [c]).flatMap encodeByte else [c]

end Percent

namespace Form

/-! ## 3. Form data -/

/-- The pieces of a byte string between the occurrences of `c`. -/
def pieces (c : UInt8) : Bytes → List Bytes
  | [] => [[]]
  | a :: s =>
    if a == c then [] :: pieces c s
    else match pieces c s with
      | [] => [[a]]
      | p :: ps => (a :: p) :: ps

/-- A name or a value: plus signs are blanks, then percent-encoding and UTF-8 are undone. -/
def component (s : Bytes) : Text :=
  Utf8.lossy (Percent.decode (s.map fun b => if b == 0x2B then 0x20 else b))

/-- A field: its name ends at the first equals sign. -/
def field (s : Bytes) : Text × Text :=
  (component (s.takeWhile (· != 0x3D)), component ((s.dropWhile (· != 0x3D)).drop 1))

/-- The fields of form data, in order; empty pieces are no fields. -/
def fields (s : Bytes) : List (Text × Text) :=
  ((pieces 0x26 s).filter (!·.isEmpty)).map field

end Form

end EdgeInclude
