import EdgeInclude.Text.Basic

/-!
# UTF-8

* `Text.utf8` — the bytes of a text.
* `Utf8.decode` — the text of a byte string, or where and how it is ill-formed.
* `Utf8.lossy` — the text with one replacement character for every ill-formed part.

An ill-formed part is a longest beginning of a character that cannot be
continued, so it is one to three bytes long.
-/

namespace EdgeInclude

/-- The bytes of a text. -/
def Text.utf8 (s : Text) : Bytes := s.flatMap String.utf8EncodeChar

namespace Utf8

/-! ## 1. How a byte string begins -/

/-- The beginning of a non-empty byte string; `more` counts the bytes after the first. -/
inductive Head where
  | char (c : Char) (more : Nat)
  | bad (more : Nat)
  | short
  deriving DecidableEq, Repr

/-- A byte that continues a character. -/
def isTail (b : UInt8) : Bool := 0x80 ≤ b && b ≤ 0xBF

/-- The six bits that a continuation byte carries. -/
def tailBits (b : UInt8) : Nat := b.toNat % 64

/-- Which second bytes may follow a first byte: shortest forms only, no surrogates,
nothing past the last code point. -/
def secondOk (b c : UInt8) : Bool :=
  if b == 0xE0 then 0xA0 ≤ c && c ≤ 0xBF
  else if b == 0xED then 0x80 ≤ c && c ≤ 0x9F
  else if b == 0xF0 then 0x90 ≤ c && c ≤ 0xBF
  else if b == 0xF4 then 0x80 ≤ c && c ≤ 0x8F
  else isTail c

/-- The first character of a byte string, or the ill-formed part in its place. -/
def head (b : UInt8) (rest : Bytes) : Head :=
  if b < 0x80 then .char (Char.ofNat b.toNat) 0
  else if 0xC2 ≤ b && b ≤ 0xDF then
    match rest with
    | [] => .short
    | c :: _ =>
      if secondOk b c then .char (Char.ofNat (b.toNat % 32 * 64 + tailBits c)) 1 else .bad 0
  else if 0xE0 ≤ b && b ≤ 0xEF then
    match rest with
    | [] => .short
    | [c] => if secondOk b c then .short else .bad 0
    | c :: d :: _ =>
      if !secondOk b c then .bad 0
      else if !isTail d then .bad 1
      else .char (Char.ofNat ((b.toNat % 16 * 64 + tailBits c) * 64 + tailBits d)) 2
  else if 0xF0 ≤ b && b ≤ 0xF4 then
    match rest with
    | [] => .short
    | [c] => if secondOk b c then .short else .bad 0
    | [c, d] => if !secondOk b c then .bad 0 else if isTail d then .short else .bad 1
    | c :: d :: e :: _ =>
      if !secondOk b c then .bad 0
      else if !isTail d then .bad 1
      else if !isTail e then .bad 2
      else .char (Char.ofNat
        (((b.toNat % 8 * 64 + tailBits c) * 64 + tailBits d) * 64 + tailBits e)) 3
  else .bad 0

/-! ## 2. Decoding -/

/-- Where a byte string stops being UTF-8. `width` is absent when the string ends
within a character. -/
structure Fault where
  validUpTo : Nat
  width : Option Nat
  deriving DecidableEq, Repr

def Fault.message (f : Fault) : String :=
  match f.width with
  | some n => s!"invalid utf-8 sequence of {n} bytes from index {f.validUpTo}"
  | none => s!"incomplete utf-8 byte sequence from index {f.validUpTo}"

/-- `decode` from position `pos`, after `skip` bytes that are already read. -/
def decodeFrom : (pos skip : Nat) → Bytes → Except Fault Text
  | _, _, [] => .ok []
  | pos, skip + 1, _ :: rest => decodeFrom (pos + 1) skip rest
  | pos, 0, b :: rest =>
    match head b rest with
    | .char c more => (decodeFrom (pos + 1) more rest).map (c :: ·)
    | .bad more => .error ⟨pos, some (more + 1)⟩
    | .short => .error ⟨pos, none⟩

/-- The text of a byte string. -/
def decode (s : Bytes) : Except Fault Text := decodeFrom 0 0 s

/-- `lossy` after `skip` bytes that are already read. -/
def lossyFrom : (skip : Nat) → Bytes → Text
  | _, [] => []
  | skip + 1, _ :: rest => lossyFrom skip rest
  | 0, b :: rest =>
    match head b rest with
    | .char c more => c :: lossyFrom more rest
    | .bad more => '\uFFFD' :: lossyFrom more rest
    | .short => ['\uFFFD']

/-- The text of a byte string, with a replacement character for each ill-formed part. -/
def lossy (s : Bytes) : Text := lossyFrom 0 s

end Utf8

/-- The text in a byte string that holds UTF-8. -/
def Text.ofUtf8? (s : Bytes) : Option Text := (Utf8.decode s).toOption

end EdgeInclude
